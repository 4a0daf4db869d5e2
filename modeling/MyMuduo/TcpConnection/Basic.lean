import MyMuduo.Buffer.Basic
import MyMuduo.EventLoop.Basic

/-!
This module contains the output side of a connection: the direct write of `sendInLoop`, the buffer that
takes what the kernel refuses, `handleWrite`, which drains it, and the half-close.
-/

namespace MyMuduo

universe u

inductive StateE where
  | kDisconnected
  | kConnecting
  | kConnected
  | kDisconnecting
  deriving DecidableEq, Repr

def EAGAIN : Nat := 11

def EWOULDBLOCK : Nat := EAGAIN

def EPIPE : Nat := 32

def ECONNRESET : Nat := 104

/--
What `::write` reports: how many bytes the kernel has accepted, or `errno`.
-/
inductive WriteResult where
  | accepted (nwrote : Nat)
  | failed (errno : Nat)
  deriving DecidableEq, Repr

namespace WriteResult

-- `::write` accepts no more than it is given
def fits (w : WriteResult) (len : Nat) : Bool :=
  match w with
  | .accepted nwrote => nwrote ≤ len
  | .failed _ => true

-- how much of the message has gone to the kernel, `nwrote` in the source
def nwrote : WriteResult → Nat
  | .accepted nwrote => nwrote
  | .failed _ => 0

end WriteResult

/--
What a connection has done to its socket. A `write` is an attempt with these bytes, the first `nwrote`
of which the kernel has accepted.
-/
inductive SocketCall where
  | write (message : List UInt8) (nwrote : Nat)
  | shutdownWrite
  deriving DecidableEq, Repr

def SocketCall.accepted : SocketCall → List UInt8
  | .write message nwrote => message.take nwrote
  | .shutdownWrite => []

/--
`socket` is the history of the calls on the socket, and the two callbacks say whether they are set.
-/
structure TcpConnection where
  state_ : StateE
  channel : Channel
  socket : List SocketCall
  outputBuffer : ByteBuffer
  writeCompleteCallback : Bool
  highWaterMarkCallback : Bool
  highWaterMark : Nat

namespace TcpConnection

-- the functors that a connection queues; `sendInLoop` holds what `std::bind` copies, a pointer and a length
inductive Functor where
  | sendInLoop (message : Addr) (len : Nat)
  | shutdownInLoop
  | writeCompleteCallback
  | highWaterMarkCallback (len : Nat)
  deriving DecidableEq, Repr

def new (channel : Addr) (sockfd : Fd) : TcpConnection where
  state_ := .kConnecting
  channel := Channel.new channel sockfd [.read, .write, .close, .error]
  socket := []
  outputBuffer := .new Buffer.kInitialSize
  writeCompleteCallback := false
  highWaterMarkCallback := false
  highWaterMark := 64 * 1024 * 1024

-- `setWriteCompleteCallback` and `setHighWaterMarkCallback`, each called or not
def setCallbacks (c : TcpConnection) (writeComplete highWaterMark : Bool) : TcpConnection :=
  { c with writeCompleteCallback := writeComplete, highWaterMarkCallback := highWaterMark }

-- the bytes that the kernel has accepted
def accepted (c : TcpConnection) : List UInt8 :=
  c.socket.flatMap SocketCall.accepted

def setState (c : TcpConnection) (state : StateE) : TcpConnection :=
  { c with state_ := state }

def write (c : TcpConnection) (message : List UInt8) (w : WriteResult) : TcpConnection :=
  { c with socket := c.socket ++ [.write message w.nwrote] }

variable {φ : Type u}

def connectEstablished (c : TcpConnection) (l : EventLoop φ)
    : Option (TcpConnection × EventLoop φ) :=
  let c := c.setState .kConnected
  (c.channel.enableReading l.poller).map fun (poller, channel) =>
    ({ c with channel := channel }, { l with poller := poller })

def shutdownInLoop (c : TcpConnection) : TcpConnection :=
  if !c.channel.isWriting then
    { c with socket := c.socket ++ [.shutdownWrite] }
  else
    c

-- nothing is waiting, so the message may go to the kernel at once
def writesDirectly (c : TcpConnection) : Bool :=
  !c.channel.isWriting && c.outputBuffer.readableBytes = 0

-- The local variable of `sendInLoop`: the message is given up. The source reads `errno` in front of `LOG_ERROR` and
-- behind it, and the log may have changed it; here one value serves both tests.
def faultError (c : TcpConnection) (w : WriteResult) : Bool :=
  c.writesDirectly &&
    match w with
    | .accepted _ => false
    | .failed errno => errno ≠ EWOULDBLOCK && (errno = EPIPE || errno = ECONNRESET)

/--
The end of `sendInLoop`, which keeps the part `data` of the message for `handleWrite`. `bind` makes a
functor of the loop from one of the connection.
-/
def keepRemaining (bind : Functor → φ) (c : TcpConnection) (l : EventLoop φ) (data : List UInt8)
    : Option (TcpConnection × EventLoop φ) :=
  let remaining := data.length
  let oldlen := c.outputBuffer.readableBytes
  let l :=
    if c.highWaterMark ≤ oldlen + remaining && oldlen < c.highWaterMark && c.highWaterMarkCallback then
      l.queueInLoop true (bind (.highWaterMarkCallback (oldlen + remaining)))
    else
      l
  let c := { c with outputBuffer := c.outputBuffer.append data }
  if !c.channel.isWriting then
    (c.channel.enableWriting l.poller).map fun (poller, channel) =>
      ({ c with channel := channel }, { l with poller := poller })
  else
    some (c, l)

-- the direct write, and what it leaves of the message
def directWrite (bind : Functor → φ) (c : TcpConnection) (l : EventLoop φ) (message : List UInt8)
    (w : WriteResult) : TcpConnection × EventLoop φ × List UInt8 :=
  let c := c.write message w
  match w with
  | .accepted nwrote =>
    let data := message.drop nwrote
    let remaining := data.length
    if remaining = 0 && c.writeCompleteCallback then
      (c, l.queueInLoop true (bind .writeCompleteCallback), data)
    else
      (c, l, data)
  | .failed _ => (c, l, message)

/--
`w` is the result of the direct write, if there is one.
-/
def sendInLoop (bind : Functor → φ) (c : TcpConnection) (l : EventLoop φ) (message : List UInt8)
    (w : WriteResult) : Option (TcpConnection × EventLoop φ) :=
  if c.state_ = .kDisconnected then
    some (c, l)
  else
    let faultError := c.faultError w
    let (c, l, data) :=
      if c.writesDirectly then
        c.directWrite bind l message w
      else
        (c, l, message)
    if !faultError && 0 < data.length then
      c.keepRemaining bind l data
    else
      some (c, l)

/--
`handleWrite` up to its test of `state_`. The flag says whether that test is reached.
-/
def drain (bind : Functor → φ) (c : TcpConnection) (l : EventLoop φ) (w : WriteResult)
    : Option (TcpConnection × EventLoop φ × Bool) :=
  if c.channel.isWriting then
    let n := w.nwrote
    let c := c.write c.outputBuffer.readable w
    if 0 < n then
      let c := { c with outputBuffer := c.outputBuffer.retrieve n }
      if c.outputBuffer.readableBytes = 0 then
        (c.channel.disableWriting l.poller).map fun (poller, channel) =>
          let l := { l with poller := poller }
          let l :=
            if c.writeCompleteCallback then
              l.queueInLoop true (bind .writeCompleteCallback)
            else
              l
          ({ c with channel := channel }, l, true)
      else
        some (c, l, false)
    else
      some (c, l, false)
  else
    some (c, l, false)

-- the test of `state_` that ends `handleWrite`
def shutdownIfDisconnecting (c : TcpConnection) : TcpConnection :=
  if c.state_ = .kDisconnecting then
    c.shutdownInLoop
  else
    c

def handleWrite (bind : Functor → φ) (c : TcpConnection) (l : EventLoop φ) (w : WriteResult)
    : Option (TcpConnection × EventLoop φ) :=
  (c.drain bind l w).map fun (c, l, drained) =>
    (if drained then c.shutdownIfDisconnecting else c, l)

end TcpConnection

end MyMuduo
