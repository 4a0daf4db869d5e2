import MyMuduo.Connector.Events
import MyMuduo.TcpConnection.Life

/-!
This module contains a client with its connector and the connections that it has made on the loop, where each
call and each handler is one step, and a handler that calls the user is two.
-/

namespace MyMuduo

/--
`connection_` is the number of a connection, which is the `nextConnId_` that it was made with, in place of the
pointer. `writeCompleteCallback_` says whether it is set.
-/
structure TcpClient where
  connector_ : Connector
  writeCompleteCallback_ : Bool
  retry_ : Bool
  connect_ : Bool
  nextConnId_ : Nat
  connection_ : Option Nat

namespace TcpClient

open TcpConnection (Task Notice)

def new (writeCompleteCallback : Bool) : TcpClient where
  connector_ := .new
  writeCompleteCallback_ := writeCompleteCallback
  retry_ := false
  connect_ := true
  nextConnId_ := 1
  connection_ := none

def enableRetry (s : TcpClient) : TcpClient :=
  { s with retry_ := true }

-- `savedErrno` is what `::connect` reports
def connect (s : TcpClient) (savedErrno : Nat) : Option TcpClient :=
  let s := { s with connect_ := true }
  (s.connector_.start savedErrno).map fun connector => { s with connector_ := connector }

def stop (s : TcpClient) : Option TcpClient :=
  let s := { s with connect_ := false }
  s.connector_.stop.map fun connector => { s with connector_ := connector }

-- what happens to a connection in its life
inductive LifeEvent where
  | connectEstablished
  | handleClose
  | connectDestroyed
  deriving DecidableEq, Repr

/--
A connection that the client has made. `detached` says whether `closeCallback_` is `detail::removeConnection`
and no more `TcpClient::removeConnection`. `log` is history.
-/
structure Made where
  conn : TcpConnection
  detached : Bool
  log : List LifeEvent

-- it is between `connectEstablished` and its close
def Made.isOpen (x : Made) : Bool :=
  x.log.contains .connectEstablished && !x.log.contains .handleClose

/--
The functors of the loop: those of the connections, those of the connector for a call on another thread, and
the one of `~TcpClient` on another thread.
-/
inductive ClientTask where
  | conn (i : Nat) (task : Task)
  | startInLoop
  | stopInLoop
  | setCloseCallback (i : Nat)
  deriving DecidableEq, Repr

/--
Where the loop thread is in a handler: about to call `newConnectionCallback_`, in `newConnection` behind the
mutex, in the `connectionCallback_` of `handleClose`, or in `removeConnection` behind the mutex.
-/
inductive Handler where
  | newConnection (sockfd : Fd)
  | connectEstablished (i : Nat)
  | closeCallback (i : Nat)
  | removeConnection (i : Nat)
  deriving DecidableEq, Repr

/--
`todo` are the callbacks of the `handleEvent` in progress, on the connection `active`. The poller is the loop's
as far as it concerns the connections.
-/
structure ClientLoop where
  client : TcpClient
  conns : Nat → Option Made
  loop : EventLoop ClientTask
  active : Nat
  todo : List Callback
  handler : Option Handler

/--
The calls of the user on the loop thread, the handlers of the connector, and the handlers of the connections.
When the loop gets to events, timers and functors is left open.
-/
inductive Label where
  | enableRetry
  | connect (savedErrno : Nat)
  | disconnect
  | stop
  | send (i : Nat) (message : Addr) (contents : List UInt8) (w : WriteResult)
  | forceClose (i : Nat)
  | handleWrite (err : Nat) (isSelfConnect : Bool)
  | handleError
  | timer (i : Nat) (savedErrno : Nat)
  | resetChannel
  | newConnection
  | connectEstablished
  | handleEvent (i : Nat) (revents : Events)
  | callback (n : Int) (w : WriteResult)
  | closeCallback
  | removeConnection (savedErrno : Nat)
  | swap
  | runFunctor (message : List UInt8) (w : WriteResult) (savedErrno : Nat)

-- a call of the user on the client
def Label.ofClient : Label → Bool
  | .enableRetry | .connect _ | .disconnect | .stop => true
  | _ => false

namespace ClientLoop

-- a client without a connection; its loop has other channels in its poller
def Started (s : ClientLoop) : Prop :=
  (∃ writeCompleteCallback, s.client = TcpClient.new writeCompleteCallback)
    ∧ (∀ i, s.conns i = none)
    ∧ (∀ fd, s.loop.poller.epoll fd = none ∧ s.loop.poller.channels fd = none)
    ∧ s.loop.functors = [] ∧ s.loop.pendingFunctors = [] ∧ s.todo = [] ∧ s.handler = none

def setConn (s : ClientLoop) (i : Nat) (x : Made) : ClientLoop :=
  { s with conns := Function.update s.conns i (some x) }

def put (s : ClientLoop) (i : Nat) (x : Made) (conn : TcpConnection) (loop : EventLoop ClientTask) : ClientLoop :=
  { s.setConn i { x with conn := conn } with loop := loop }

def setConnector (s : ClientLoop) (connector : Connector) : ClientLoop :=
  { s with client := { s.client with connector_ := connector } }

/--
A handler of the connection has run. If it was `handleClose`, `closeCallback_` is still to be called.
-/
def finish (s : ClientLoop) (i : Nat) (x : Made) (events : List LifeEvent)
    (r : TcpConnection × EventLoop ClientTask × List Notice) : ClientLoop :=
  if r.2.2.contains .closeCallback then
    { s.put i { x with log := x.log ++ events ++ [.handleClose] } r.1 r.2.1 with handler := some (.closeCallback i) }
  else
    s.put i { x with log := x.log ++ events } r.1 r.2.1

def disconnect (s : ClientLoop) : Option ClientLoop :=
  let s := { s with client := { s.client with connect_ := false } }
  match s.client.connection_ with
  | none => some s
  | some i =>
    (s.conns i).map fun x =>
      let (conn, loop) := x.conn.shutdown (fun f => .conn i (.own f)) true s.loop
      s.put i x conn loop

-- `Connector::handleWrite` up to the call of `newConnectionCallback_`
def handleWrite (s : ClientLoop) (err : Nat) (isSelfConnect : Bool) : Option ClientLoop :=
  (s.client.connector_.handleWrite err isSelfConnect).map fun connector =>
    { s.setConnector connector with
        handler := (connector.handed.drop s.client.connector_.handed.length).head?.map .newConnection }

-- the connection that `newConnection` makes
def made (s : ClientLoop) (sockfd : Fd) : Made where
  conn :=
    (TcpConnection.new s.client.nextConnId_ sockfd).setCallbacks s.client.writeCompleteCallback_ false
  detached := false
  log := []

def newConnection (s : ClientLoop) : Option ClientLoop :=
  match s.handler with
  | some (.newConnection sockfd) =>
    let i := s.client.nextConnId_
    some
      { s.setConn i (s.made sockfd) with
          client := { s.client with nextConnId_ := i + 1, connection_ := some i }
          handler := some (.connectEstablished i) }
  | _ => none

def connectEstablished (s : ClientLoop) : Option ClientLoop :=
  match s.handler with
  | some (.connectEstablished i) =>
    let s := { s with handler := none }
    (s.conns i).bind fun x =>
      (x.conn.runTask (.conn i) s.loop [] (.accepted 0) .connectEstablished).map (s.finish i x [.connectEstablished])
  | _ => none

def callback (s : ClientLoop) (n : Int) (w : WriteResult) : Option ClientLoop :=
  match s.todo with
  | [] => none
  | callback :: todo =>
    let s := { s with todo := todo }
    (s.conns s.active).bind fun x =>
      (x.conn.runCallback (.conn s.active) s.loop n w callback).map (s.finish s.active x [])

def queueInLoop (s : ClientLoop) (isInLoopThread : Bool) (cb : ClientTask) : ClientLoop :=
  { s with loop := s.loop.queueInLoop isInLoopThread cb }

-- `detail::removeConnection`, or `removeConnection` up to the end of the mutex
def closeCallback (s : ClientLoop) : Option ClientLoop :=
  match s.handler with
  | some (.closeCallback i) =>
    (s.conns i).map fun x =>
      if x.detached then
        { s with handler := none }.queueInLoop true (.conn i .connectDestroyed)
      else
        { s with client := { s.client with connection_ := none }, handler := some (.removeConnection i) }
  | _ => none

-- the rest of `removeConnection`
def removeConnection (s : ClientLoop) (savedErrno : Nat) : Option ClientLoop :=
  match s.handler with
  | some (.removeConnection i) =>
    let s := { s with handler := none }.queueInLoop true (.conn i .connectDestroyed)
    if s.client.retry_ && s.client.connect_ then
      (s.client.connector_.restart savedErrno).map s.setConnector
    else
      some s
  | _ => none

def taskEvents : Task → List LifeEvent
  | .connectDestroyed => [.connectDestroyed]
  | _ => []

def runFunctor (s : ClientLoop) (message : List UInt8) (w : WriteResult) (savedErrno : Nat) : Option ClientLoop :=
  match s.loop.functors with
  | [] => none
  | cb :: functors =>
    let s := { s with loop := { s.loop with functors := functors } }
    match cb with
    | .conn i task =>
      (s.conns i).bind fun x => (x.conn.runTask (.conn i) s.loop message w task).map (s.finish i x (taskEvents task))
    | .startInLoop => (s.client.connector_.startInLoop savedErrno).map s.setConnector
    | .stopInLoop => s.client.connector_.stopInLoop.map s.setConnector
    | .setCloseCallback i => (s.conns i).map fun x => s.setConn i { x with detached := true }

-- what epoll may report for the connection
def reports (s : ClientLoop) (i : Nat) (revents : Events) : Bool :=
  match s.conns i with
  | none => false
  | some x =>
    match s.loop.poller.epoll x.conn.channel.fd with
    | none => false
    | some (events, _) => revents ≠ 0 && revents &&& ~~~(events ||| EPOLLERR ||| EPOLLHUP) = 0

-- the functor reads as many bytes as it was told
def reads (message : List UInt8) (w : WriteResult) : ClientTask → Bool
  | .conn _ (.own (.sendInLoop _ len)) => message.length = len && w.fits len
  | _ => true

def fits (s : ClientLoop) (w : WriteResult) : Bool :=
  (s.conns s.active).all fun x => w.fits x.conn.outputBuffer.readableBytes

-- no handler is in progress, or it calls the user
def inUserCode (s : ClientLoop) : Bool :=
  match s.handler with
  | none | some (.closeCallback _) => true
  | _ => false

-- the loop may get to the next handler
def idle (s : ClientLoop) : Bool :=
  s.handler.isNone && s.todo.isEmpty

def enabled (s : ClientLoop) : Label → Bool
  | .enableRetry | .connect _ | .disconnect | .stop => s.inUserCode
  | .send i _ contents w => s.inUserCode && (s.conns i).isSome && w.fits contents.length
  | .forceClose i => s.inUserCode && (s.conns i).isSome
  | .handleWrite .. | .handleError => s.idle
  | .timer i _ => s.idle && i < s.client.connector_.timers.length
  | .resetChannel => s.idle && 0 < s.client.connector_.resets
  | .newConnection | .connectEstablished | .closeCallback | .removeConnection _ => s.handler.isSome
  | .handleEvent i revents => s.idle && s.reports i revents
  | .callback _ w => s.handler.isNone && s.fits w
  | .swap => s.idle && s.loop.functors.isEmpty
  | .runFunctor message w _ => s.idle && s.loop.functors.head?.all (reads message w)

def next (s : ClientLoop) : Label → Option ClientLoop
  | .enableRetry => some { s with client := s.client.enableRetry }
  | .connect savedErrno => (s.client.connect savedErrno).map fun client => { s with client := client }
  | .disconnect => s.disconnect
  | .stop => s.client.stop.map fun client => { s with client := client }
  | .send i message contents w =>
    (s.conns i).bind fun x =>
      (x.conn.send (fun f => .conn i (.own f)) true s.loop message contents w).map fun (conn, loop) =>
        s.put i x conn loop
  | .forceClose i =>
    (s.conns i).map fun x =>
      let (conn, loop) := x.conn.forceClose (.conn i) true s.loop
      s.put i x conn loop
  | .handleWrite err isSelfConnect => s.handleWrite err isSelfConnect
  | .handleError => s.client.connector_.handleError.map s.setConnector
  | .timer i savedErrno => (s.client.connector_.next (.timer i savedErrno)).map s.setConnector
  | .resetChannel => (s.client.connector_.next .resetChannel).map s.setConnector
  | .newConnection => s.newConnection
  | .connectEstablished => s.connectEstablished
  | .handleEvent i revents =>
    (s.conns i).map fun x =>
      { s with active := i, todo := { x.conn.channel with revents := revents }.handleEventWithGuard }
  | .callback n w => s.callback n w
  | .closeCallback => s.closeCallback
  | .removeConnection savedErrno => s.removeConnection savedErrno
  | .swap => some { s with loop := s.loop.swapFunctors }
  | .runFunctor message w savedErrno => s.runFunctor message w savedErrno

def system : LTS ClientLoop Label :=
  .guarded Started enabled next

def started : ClientLoop where
  client := TcpClient.new false
  conns _ := none
  loop := { EventLoop.constructed _ with poller := .empty }
  active := 0
  todo := []
  handler := none

theorem started_init : started.Started :=
  ⟨⟨false, rfl⟩, fun _ => rfl, fun _ => ⟨rfl, rfl⟩, rfl, rfl, rfl, rfl⟩

end ClientLoop

end TcpClient

end MyMuduo
