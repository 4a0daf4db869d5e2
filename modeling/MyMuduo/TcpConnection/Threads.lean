import MyMuduo.Data.Memory
import MyMuduo.EventLoop.Threads
import MyMuduo.TcpConnection.Output

/-!
This module contains the interleavings of the loop thread of one established connection with any number
of threads that call `send` and `shutdown` on it. Each access to `state_` is a step of its own, and the
strings that are sent live in a memory that the threads share and of which only a part is alive.
-/

namespace MyMuduo

namespace TcpConnection

open EventLoop (Thread)

/--
What a thread is about to do: `sending` and `shuttingDown` have seen `kConnected`, `shutDown` has stored
`kDisconnecting`. `call` numbers the calls of `send` that have seen `kConnected`.
-/
inductive Caller where
  | idle
  | sending (call : Nat) (message : Addr) (len : Nat)
  | shuttingDown
  | shutDown
  deriving DecidableEq, Repr

-- a functor of the loop; `call` is history, the call of `send` that has queued it
structure Job where
  functor : Functor
  call : Option Nat
  deriving DecidableEq, Repr

namespace Job

def bind (f : Functor) : Job :=
  ⟨f, none⟩

end Job

-- the loop thread: between two callbacks, in `handleWrite` before its test of `state_`, in `doPendingFunctors`
inductive LoopPc where
  | events
  | drained
  | functors
  deriving DecidableEq, Repr

-- a call of `send` that has seen `kConnected`, and the contents of its argument at that moment
structure Call (τ : Type) where
  thread : Thread τ
  contents : List UInt8
  deriving DecidableEq, Repr

/--
The last three fields are history: the accepted calls of `send`, the bytes that `sendInLoop` has
processed, with the number of the call that they were processed for, and whether `sendInLoop` has read
storage that was not alive.
-/
structure Threads (τ : Type) where
  conn : TcpConnection
  loop : EventLoop Job
  memory : Memory UInt8
  callers : Thread τ → Caller
  pc : LoopPc
  calls : List (Call τ)
  processed : List (Nat × List UInt8)
  faulted : Bool

inductive Label (τ : Type) where
  | send (t : Thread τ) (message : Addr) (len : Nat)
  | sendRun (t : Thread τ) (w : WriteResult)
  | shutdown (t : Thread τ)
  | shutdownStore (t : Thread τ)
  | shutdownRun (t : Thread τ)
  | handleWrite (w : WriteResult)
  | testState
  | swap
  | runFunctor (w : WriteResult)
  | endFunctors

namespace Threads

variable {τ : Type}

def Established (s : Threads τ) : Prop :=
  (∃ channel sockfd writeComplete highWaterMark l, (l.poller.epoll sockfd).isSome = false
    ∧ l.functors = [] ∧ l.pendingFunctors = []
    ∧ ((new channel sockfd).setCallbacks writeComplete highWaterMark).connectEstablished l =
        some (s.conn, s.loop))
    ∧ (∀ t, s.callers t = .idle) ∧ s.pc = .events ∧ s.calls = [] ∧ s.processed = []
    ∧ s.faulted = false

-- the functors that wait, in the order in which they will run
def queue (s : Threads τ) : List Job :=
  s.loop.functors ++ s.loop.pendingFunctors

variable [DecidableEq τ]

-- the loop thread calls `send` and `shutdown` from callbacks and from functors
def mayCall (s : Threads τ) (t : Thread τ) : Bool :=
  s.callers t = .idle && (t ≠ .loop || s.pc ≠ .drained)

def atPc (s : Threads τ) (pc : LoopPc) : Bool :=
  s.callers .loop = .idle && s.pc = pc

def isSending (s : Threads τ) (t : Thread τ) : Bool :=
  match s.callers t with
  | .sending .. => true
  | _ => false

def enabled (s : Threads τ) : Label τ → Bool
  | .send t .. => s.mayCall t
  | .sendRun t _ => s.isSending t
  | .shutdown t => s.mayCall t
  | .shutdownStore t => s.callers t = .shuttingDown
  | .shutdownRun t => s.callers t = .shutDown
  | .handleWrite w => s.atPc .events && w.fits s.conn.outputBuffer.readableBytes
  | .testState => s.atPc .drained
  | .swap => s.atPc .events
  | .runFunctor _ => s.atPc .functors
  | .endFunctors => s.atPc .functors && s.loop.functors.isEmpty

def setCaller (s : Threads τ) (t : Thread τ) (c : Caller) : Threads τ :=
  { s with callers := Function.update s.callers t c }

@[simp]
theorem conn_setCaller (s : Threads τ) (t : Thread τ) (c : Caller)
    : (s.setCaller t c).conn = s.conn := rfl

@[simp]
theorem loop_setCaller (s : Threads τ) (t : Thread τ) (c : Caller)
    : (s.setCaller t c).loop = s.loop := rfl

-- `sendInLoop` on what the memory holds now; in `kDisconnected` it does not look at the message
def runSend (s : Threads τ) (call : Nat) (message : Addr) (len : Nat) (w : WriteResult)
    : Option (Threads τ) :=
  match s.memory.load message len with
  | none => some { s with faulted := s.faulted || s.conn.state_ ≠ .kDisconnected }
  | some bytes =>
    if w.fits bytes.length then
      (s.conn.sendInLoop Job.bind s.loop bytes w).map fun (conn, loop) =>
        { s with
            conn := conn
            loop := loop
            processed :=
              if s.conn.state_ = .kDisconnected then s.processed else s.processed ++ [(call, bytes)] }
    else
      none

def next (s : Threads τ) : Label τ → Option (Threads τ)
  | .send t message len =>
    -- the argument is a string that is alive
    (s.memory.load message len).map fun contents =>
      if s.conn.state_ = .kConnected then
        { s.setCaller t (.sending s.calls.length message len) with
          calls := s.calls ++ [⟨t, contents⟩] }
      else
        s
  | .sendRun t w =>
    match s.callers t with
    | .sending call message len =>
      if t = .loop then
        (s.setCaller t .idle).runSend call message len w
      else
        some
          { s.setCaller t .idle with
            loop := s.loop.queueInLoop false ⟨.sendInLoop message len, some call⟩ }
    | _ => none
  | .shutdown t =>
    some (if s.conn.state_ = .kConnected then s.setCaller t .shuttingDown else s)
  | .shutdownStore t =>
    some { s.setCaller t .shutDown with conn := s.conn.setState .kDisconnecting }
  | .shutdownRun t =>
    if t = .loop then
      some { s.setCaller t .idle with conn := s.conn.shutdownInLoop }
    else
      some
        { s.setCaller t .idle with loop := s.loop.queueInLoop false (Job.bind .shutdownInLoop) }
  | .handleWrite w =>
    (s.conn.drain Job.bind s.loop w).map fun (conn, loop, drained) =>
      { s with conn := conn, loop := loop, pc := if drained then .drained else .events }
  | .testState => some { s with conn := s.conn.shutdownIfDisconnecting, pc := .events }
  | .swap => some { s with loop := s.loop.swapFunctors, pc := .functors }
  | .runFunctor w =>
    match s.loop.functors with
    | [] => none
    | job :: rest =>
      let s := { s with loop := { s.loop with functors := rest } }
      match job with
      | ⟨.sendInLoop message len, some call⟩ => s.runSend call message len w
      | ⟨.shutdownInLoop, _⟩ => some { s with conn := s.conn.shutdownInLoop }
      | _ => some s
  | .endFunctors => some { s with pc := .events }

-- a connection on descriptor 7 with no callbacks set, and a memory with the bytes 0, 1, 2, …
def established : Threads Unit :=
  let (conn, loop) := ((new 2 7).connectEstablished (.constructed _)).get rfl
  { conn := conn
    loop := loop
    memory := fun addr => some (.ofNat addr)
    callers := fun _ => .idle
    pc := .events
    calls := []
    processed := []
    faulted := false }

theorem established_init : established.Established :=
  ⟨⟨2, 7, false, false, .constructed _, rfl, rfl, rfl, rfl⟩, fun _ => rfl, rfl, rfl, rfl, rfl⟩

end Threads

end TcpConnection

end MyMuduo
