import MyMuduo.TcpConnection.Confined
import MyMuduo.TcpConnection.Life
import MyMuduo.TcpServer.Basic

/-!
This module contains a server with its connections on the base loop and the io loops, where each call and
each handler is one step, and the destructor of the server.
-/

namespace MyMuduo

namespace TcpServer

open TcpConnection (Task Notice Phase)

-- what happens to a connection in its life
inductive LifeEvent where
  | newConnection
  | connectEstablished
  | channelEvent
  | handleClose
  | removeConnectionInLoop
  | connectDestroyed
  deriving DecidableEq, Repr

/--
A connection that the server has accepted. `loop_` is the number of its loop, and `log` is history.
-/
structure Accepted where
  conn : TcpConnection
  name : List Char
  loop_ : Nat
  log : List LifeEvent

-- the functors of a loop
inductive ServerTask where
  | conn (i : Nat) (task : Task)
  | removeConnectionInLoop (i : Nat)
  deriving DecidableEq, Repr

/--
A loop and its thread. `active` are the reported channels whose `handleEvent` is still to come, `todo` the
callbacks of the `handleEvent` in progress.
-/
structure ServerLoop where
  loop : EventLoop ServerTask
  phase : Phase
  active : List (Nat × Events)
  todo : List (Nat × Callback)

-- the server exists, is in its destructor, or is gone
inductive Teardown where
  | running
  | destroying
  | destroyed
  deriving DecidableEq, Repr

/--
`late` is history: whether a function that is bound to the server was executed when the server was gone.
-/
structure ServerLoops where
  server : TcpServer
  conns : Nat → Option Accepted
  loops : Nat → ServerLoop
  teardown : Teardown
  late : Bool

inductive Label where
  | newConnection (sockfd : Fd) (highWaterMark : Bool)
  | poll (k : Nat) (reports : List (Nat × Events))
  | handleEvent (k : Nat)
  | callback (k : Nat) (n : Int) (w : WriteResult)
  | swap (k : Nat)
  | runFunctor (k : Nat) (message : List UInt8) (w : WriteResult)
  | endFunctors (k : Nat)
  | send (i : Nat) (isInLoopThread : Bool) (message : Addr) (contents : List UInt8) (w : WriteResult)
  | shutdown (i : Nat) (isInLoopThread : Bool)
  | forceClose (i : Nat) (isInLoopThread : Bool)
  | destroy
  | destroyConnection (i : Nat)
  | endDestroy

namespace ServerLoops

-- the server before its first connection; the loops have other channels in their pollers
def Started (s : ServerLoops) : Prop :=
  (∃ listenAddr nameArg loops writeCompleteCallback,
      s.server = TcpServer.new listenAddr nameArg loops writeCompleteCallback)
    ∧ (∀ i, s.conns i = none)
    ∧ (∀ k, (s.loops k).loop.functors = [] ∧ (s.loops k).loop.pendingFunctors = []
      ∧ (s.loops k).active = [] ∧ (s.loops k).todo = [])
    ∧ s.teardown = .running ∧ s.late = false

def setConn (s : ServerLoops) (i : Nat) (x : Accepted) : ServerLoops :=
  { s with conns := Function.update s.conns i (some x) }

def setLoop (s : ServerLoops) (k : Nat) (loop : EventLoop ServerTask) : ServerLoops :=
  { s with loops := Function.update s.loops k { s.loops k with loop := loop } }

def setTodo (s : ServerLoops) (k : Nat) (todo : List (Nat × Callback)) : ServerLoops :=
  { s with loops := Function.update s.loops k { s.loops k with todo := todo } }

def setFunctors (s : ServerLoops) (k : Nat) (functors : List ServerTask) : ServerLoops :=
  s.setLoop k { (s.loops k).loop with functors := functors }

-- the thread of loop `thread` calls `queueInLoop` of loop `k`
def queueInLoop (s : ServerLoops) (thread k : Nat) (cb : ServerTask) : ServerLoops :=
  s.setLoop k ((s.loops k).loop.queueInLoop (thread = k) cb)

-- a function that is bound to the server is executed
def useServer (s : ServerLoops) : ServerLoops :=
  { s with late := s.late || s.teardown = .destroyed }

def removeConnectionInLoop (s : ServerLoops) (i : Nat) : ServerLoops :=
  match s.conns i with
  | none => s
  | some x =>
    let s := { s.useServer with server := s.server.erase x.name }
    let s := s.setConn i { x with log := x.log ++ [.removeConnectionInLoop] }
    s.queueInLoop 0 x.loop_ (.conn i .connectDestroyed)

-- `removeConnection` on the thread of loop `thread`
def removeConnection (s : ServerLoops) (thread i : Nat) : ServerLoops :=
  if thread = 0 then
    s.useServer.removeConnectionInLoop i
  else
    s.useServer.queueInLoop thread 0 (.removeConnectionInLoop i)

def put (s : ServerLoops) (i : Nat) (x : Accepted) (conn : TcpConnection) (loop : EventLoop ServerTask)
    : ServerLoops :=
  (s.setConn i { x with conn := conn }).setLoop x.loop_ loop

/--
A handler of the connection has run, and called `closeCallback_` if it was `handleClose`. `events` is what
the handler adds to the log.
-/
def finish (s : ServerLoops) (i : Nat) (x : Accepted) (events : List LifeEvent)
    (r : TcpConnection × EventLoop ServerTask × List Notice) : ServerLoops :=
  if r.2.2.contains .closeCallback then
    (s.put i { x with log := x.log ++ events ++ [.handleClose] } r.1 r.2.1).removeConnection x.loop_ i
  else
    s.put i { x with log := x.log ++ events } r.1 r.2.1

-- the threads that run: the base loop is in the destructor, and then the io loops have been joined
def runs (s : ServerLoops) (k : Nat) : Bool :=
  k ≤ s.server.threadPool_.loops_ &&
    match s.teardown with
    | .running => true
    | .destroying => k ≠ 0
    | .destroyed => k = 0

-- `accept` returns a descriptor that no connection holds
def isFree (s : ServerLoops) (sockfd : Fd) : Bool :=
  (List.range s.server.nextConnId_).all fun i =>
    (s.conns i).all fun x => x.log.contains .connectDestroyed || x.conn.channel.fd ≠ sockfd

-- what epoll may report on loop `k`
def reports (s : ServerLoops) (k : Nat) (report : Nat × Events) : Bool :=
  match s.conns report.1 with
  | none => false
  | some x =>
    x.loop_ = k &&
      match (s.loops k).loop.poller.epoll x.conn.channel.fd with
      | none => false
      | some (events, addr) =>
        addr = x.conn.channel.addr && report.2 ≠ 0 && report.2 &&& ~~~(events ||| EPOLLERR ||| EPOLLHUP) = 0

-- the functor reads as many bytes as it was told
def reads (message : List UInt8) (w : WriteResult) : ServerTask → Bool
  | .conn _ (.own (.sendInLoop _ len)) => message.length = len && w.fits len
  | _ => true

def fits (s : ServerLoops) (w : WriteResult) (report : Nat × Callback) : Bool :=
  (s.conns report.1).all fun x => w.fits x.conn.outputBuffer.readableBytes

def enabled (s : ServerLoops) : Label → Bool
  | .newConnection sockfd _ =>
    s.runs 0 && (s.loops 0).phase = .events && (s.loops 0).todo.isEmpty && s.server.nextConnId_ < INT_MAX
      && s.isFree sockfd
      && ((s.loops s.server.threadPool_.getNextLoop.1).loop.poller.epoll sockfd).isNone
      && s.teardown = .running
  | .poll k reports =>
    s.runs k && (s.loops k).phase = .polling && reports.all (s.reports k) && (reports.map (·.1)).Nodup
  | .handleEvent k => s.runs k && (s.loops k).todo.isEmpty
  | .callback k _ w => s.runs k && (s.loops k).todo.head?.all (s.fits w)
  | .swap k =>
    s.runs k && (s.loops k).phase = .events && (s.loops k).active.isEmpty && (s.loops k).todo.isEmpty
  | .runFunctor k message w =>
    s.runs k && (s.loops k).phase = .functors && (s.loops k).loop.functors.head?.all (reads message w)
  | .endFunctors k => s.runs k && (s.loops k).phase = .functors && (s.loops k).loop.functors.isEmpty
  | .send i _ _ contents w => (s.conns i).isSome && w.fits contents.length
  | .shutdown i _ | .forceClose i _ => (s.conns i).isSome
  | .destroy => s.teardown = .running
  | .destroyConnection i =>
    s.teardown = .destroying && (s.conns i).any fun x => s.server.connections_.contains (x.name, i)
  | .endDestroy => s.teardown = .destroying && s.server.connections_.isEmpty

-- what the functor adds to the log
def taskEvents : Task → List LifeEvent
  | .connectEstablished => [.connectEstablished]
  | .connectDestroyed => [.connectDestroyed]
  | _ => []

-- the connection that `newConnection` makes
def accepted (s : ServerLoops) (sockfd : Fd) (highWaterMark : Bool) : Accepted where
  conn :=
    (TcpConnection.new s.server.nextConnId_ sockfd).setCallbacks s.server.writeCompleteCallback_ highWaterMark
  name := s.server.connName s.server.nextConnId_
  loop_ := s.server.threadPool_.getNextLoop.1
  log := [.newConnection]

-- it has been put into `connections_`
def insertConnection (s : ServerLoops) (x : Accepted) : ServerLoops :=
  let i := s.server.nextConnId_
  let threadPool := s.server.threadPool_.getNextLoop.2
  let server := { s.server with threadPool_ := threadPool, nextConnId_ := i + 1 }
  { s with server := server.insert x.name i }.setConn i x

def newConnection (s : ServerLoops) (sockfd : Fd) (highWaterMark : Bool) : Option ServerLoops :=
  let i := s.server.nextConnId_
  let x := s.accepted sockfd highWaterMark
  let s := s.insertConnection x
  if x.loop_ = 0 then
    (x.conn.runTask (.conn i) (s.loops x.loop_).loop [] (.accepted 0) .connectEstablished).map
      (s.finish i x [.connectEstablished])
  else
    some (s.queueInLoop 0 x.loop_ (.conn i .connectEstablished))

def runFunctor (s : ServerLoops) (k : Nat) (message : List UInt8) (w : WriteResult) : Option ServerLoops :=
  match (s.loops k).loop.functors with
  | [] => none
  | cb :: functors =>
    let s := s.setFunctors k functors
    match cb with
    | .removeConnectionInLoop i => some (s.removeConnectionInLoop i)
    | .conn i task =>
      (s.conns i).bind fun x =>
        (x.conn.runTask (.conn i) (s.loops x.loop_).loop message w task).map (s.finish i x (taskEvents task))

def callback (s : ServerLoops) (k : Nat) (n : Int) (w : WriteResult) : Option ServerLoops :=
  match (s.loops k).todo with
  | [] => none
  | (i, callback) :: todo =>
    let s := s.setTodo k todo
    (s.conns i).bind fun x =>
      (x.conn.runCallback (.conn i) (s.loops x.loop_).loop n w callback).map (s.finish i x [.channelEvent])

def handleEvent (s : ServerLoops) (k : Nat) : Option ServerLoops :=
  match (s.loops k).active with
  | [] => none
  | (i, revents) :: active =>
    (s.conns i).map fun x =>
      let callbacks := { x.conn.channel with revents := revents }.handleEventWithGuard
      let l := { s.loops k with active := active, todo := callbacks.map fun callback => (i, callback) }
      { s with loops := Function.update s.loops k l }

-- one iteration of the loop in `~TcpServer`
def destroyConnection (s : ServerLoops) (i : Nat) : Option ServerLoops :=
  (s.conns i).bind fun x =>
    let s := { s with server := s.server.erase x.name }
    if x.loop_ = 0 then
      (x.conn.connectDestroyed (s.loops 0).loop).map (s.finish i x [.connectDestroyed])
    else
      some (s.queueInLoop 0 x.loop_ (.conn i .connectDestroyed))

def setPhase (s : ServerLoops) (k : Nat) (phase : Phase) : ServerLoops :=
  { s with loops := Function.update s.loops k { s.loops k with phase := phase } }

def next (s : ServerLoops) : Label → Option ServerLoops
  | .newConnection sockfd highWaterMark => s.newConnection sockfd highWaterMark
  | .poll k reports =>
    some { s with loops := Function.update s.loops k { s.loops k with phase := .events, active := reports } }
  | .handleEvent k => s.handleEvent k
  | .callback k n w => s.callback k n w
  | .swap k => some ((s.setLoop k (s.loops k).loop.swapFunctors).setPhase k .functors)
  | .runFunctor k message w => s.runFunctor k message w
  | .endFunctors k => some (s.setPhase k .polling)
  | .send i isInLoopThread message contents w =>
    (s.conns i).bind fun x =>
      (x.conn.send (fun f => .conn i (.own f)) isInLoopThread (s.loops x.loop_).loop message contents w).map
        fun (conn, loop) => s.put i x conn loop
  | .shutdown i isInLoopThread =>
    (s.conns i).map fun x =>
      let (conn, loop) := x.conn.shutdown (fun f => .conn i (.own f)) isInLoopThread (s.loops x.loop_).loop
      s.put i x conn loop
  | .forceClose i isInLoopThread =>
    (s.conns i).map fun x =>
      let (conn, loop) := x.conn.forceClose (.conn i) isInLoopThread (s.loops x.loop_).loop
      s.put i x conn loop
  | .destroy => some { s with teardown := .destroying }
  | .destroyConnection i => s.destroyConnection i
  | .endDestroy => some { s with teardown := .destroyed }

def system : LTS ServerLoops Label :=
  .guarded Started enabled next

-- a server on port 8080 with `loops` io loops, whose base loop is about to handle its acceptor
def started (loops : Nat) : ServerLoops where
  server := TcpServer.new ⟨(127, 0, 0, 1), 8080⟩ [] loops false
  conns _ := none
  loops _ := ⟨.constructed _, .events, [], []⟩
  teardown := .running
  late := false

theorem started_init (loops : Nat) : (started loops).Started :=
  ⟨⟨⟨(127, 0, 0, 1), 8080⟩, [], loops, false, rfl⟩, fun _ => rfl, fun _ => ⟨rfl, rfl, rfl, rfl⟩, rfl, rfl⟩

end ServerLoops

end TcpServer

end MyMuduo
