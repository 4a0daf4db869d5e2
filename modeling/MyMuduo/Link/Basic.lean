import MyMuduo.Buffer.Calls
import MyMuduo.TcpConnection.Life

/-!
This module contains two connections that are the ends of one stream: each with its loop, its input buffer and
its user, and between them the bytes that the kernel has accepted on one side and not yet brought to the other.
-/

namespace MyMuduo

open TcpConnection (Life)

-- the socket has been shut down for writing
def TcpConnection.halfClosed (c : TcpConnection) : Bool :=
  c.socket.contains .shutdownWrite

/--
A connection with `inputBuffer_`. The other fields are history: the messages that `sendInLoop` has not given
up, the bytes that `readv` has brought, those that the user has taken out of `inputBuffer_`, and whether
`readv` has reported the end.
-/
structure Endpoint where
  life : Life
  inputBuffer : WordBuffer
  kept : List (List UInt8)
  received : List UInt8
  consumed : List UInt8
  ended : Bool

namespace Endpoint

inductive Label where
  -- the read callback, with what `readv` reports
  | handleRead (result : WordBuffer.Readv)
  -- the user takes bytes out of `inputBuffer_`
  | call (c : WordBuffer.Call)
  -- every other step of the connection
  | life (a : Life.Label)

def conn (e : Endpoint) : TcpConnection :=
  e.life.conn

-- a connection as `connectEstablished` leaves it, before anything has been sent and received
def Established (e : Endpoint) : Prop :=
  e.life.Established ∧ e.inputBuffer = .new (.ofNat Buffer.kInitialSize) ∧ e.kept = [] ∧ e.received = []
    ∧ e.consumed = [] ∧ e.ended = false

def takesOut : WordBuffer.Call → Bool
  | .append _ | .readFd _ => false
  | .retrieve _ | .retrieveAll | .ensureWriteableBytes _ | .reteieveAsString _ | .retrieveAllAsString => true

-- the result of the `::write` in a step, if there is one
def writeResult : Life.Label → Option WriteResult
  | .callback _ w | .runFunctor _ w | .send _ _ _ w => some w
  | _ => none

-- the step is the read callback
def isRead (e : Endpoint) : Life.Label → Bool
  | .callback .. => e.life.todo.head? = some .read
  | _ => false

def enabled (e : Endpoint) : Label → Bool
  | .handleRead result => e.life.todo.head? = some .read && result.fits e.inputBuffer
  | .call c => takesOut c
  | .life a =>
    e.life.enabled a && !e.isRead a
      -- on a socket that is shut down `::write` fails
      && (writeResult a).all fun w => !e.conn.halfClosed || w = .failed EPIPE

def handleRead (e : Endpoint) (result : WordBuffer.Readv) : Option Endpoint :=
  (e.inputBuffer.readFd result).bind fun (inputBuffer, n, _) =>
    -- `std::vector` throws instead of growing beyond its largest size
    if inputBuffer.buffer.length ≤ WordBuffer.PTRDIFF_MAX then
      (e.life.next (.callback n (.accepted 0))).map fun life =>
        match result with
        | .failed _ => { e with life := life, inputBuffer := inputBuffer }
        | .received bytes =>
          { e with
              life := life
              inputBuffer := inputBuffer
              received := e.received ++ bytes
              ended := e.ended || bytes = [] }
    else
      none

-- the call of `sendInLoop` in a step, and the result of its direct write
def sending (s : Life) : Life.Label → Option (List UInt8 × WriteResult)
  | .send true _ contents w => if s.conn.state_ = .kConnected then some (contents, w) else none
  | .runFunctor message w =>
    match s.loop.functors with
    | .own (.sendInLoop _ _) :: _ => some (message, w)
    | _ => none
  | _ => none

-- the message that a step takes on: the connection is up, and the direct write finds the peer
def given (s : Life) (a : Life.Label) : Option (List UInt8) :=
  (sending s a).bind fun (message, w) =>
    if s.conn.state_ = .kDisconnected ∨ s.conn.mayMiss w then none else some message

def next (e : Endpoint) : Label → Option Endpoint
  | .handleRead result => e.handleRead result
  | .call c =>
    (WordBuffer.calls.step e.inputBuffer c).map fun inputBuffer =>
      let taken := e.inputBuffer.toQueue.length - inputBuffer.toQueue.length
      { e with inputBuffer := inputBuffer, consumed := e.consumed ++ e.inputBuffer.toQueue.take taken }
  | .life a =>
    (e.life.next a).map fun life => { e with life := life, kept := e.kept ++ (given e.life a).toList }

end Endpoint

inductive Side where
  | client
  | server
  deriving DecidableEq, Repr

def Side.other : Side → Side
  | client => server
  | server => client

structure Link where
  ends : Side → Endpoint

namespace Link

abbrev Label := Side × Endpoint.Label

-- what the kernel has accepted on a side and not yet brought to the other
def underway (s : Link) (side : Side) : List UInt8 :=
  (s.ends side).conn.accepted.drop (s.ends side.other).received.length

-- what `readv` may report: an error, the next bytes, or the end behind the last one
def arrives (s : Link) (side : Side) : WordBuffer.Readv → Bool
  | .failed _ => true
  | .received bytes =>
    if bytes = [] then
      s.underway side.other = [] && ((s.ends side.other).conn.halfClosed || (s.ends side.other).life.destroyed)
    else
      bytes.isPrefixOf (s.underway side.other)

def enabled (s : Link) (a : Label) : Bool :=
  (s.ends a.1).enabled a.2 &&
    match a.2 with
    | .handleRead result => s.arrives a.1 result
    | .call _ | .life _ => true

def setEnd (s : Link) (side : Side) (e : Endpoint) : Link :=
  { ends := Function.update s.ends side e }

def next (s : Link) (a : Label) : Option Link :=
  ((s.ends a.1).next a.2).map (s.setEnd a.1)

def system : LTS Link Label :=
  .guarded (fun s => ∀ side, (s.ends side).Established) enabled next

end Link

end MyMuduo
