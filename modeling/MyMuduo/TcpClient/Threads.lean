import MyMuduo.TcpClient.Calls

/-!
This module contains the destructor of a client, on the loop thread in one step and on another thread in several,
beside the loop thread and the calls of other threads, and when it is safe.
-/

namespace MyMuduo

namespace TcpClient

open TcpConnection.Race (Call Caller)

/--
Where the destructor is. On another thread it has read `connection_`, and is about to queue `setCloseCallback`, to
test `unique`, to go on in `forceClose`, to write `connect_`, to queue `stopInLoop`, or to return. What it has found
in `connection_` is the first argument.
-/
inductive Teardown where
  | running
  | found (i : Nat) (unique : Bool)
  | replaced (i : Nat) (unique : Bool)
  | forcing (i : Nat) (caller : Caller)
  | empty
  | stopping
  | returning (found : Option Nat)
  | destroyed
  deriving DecidableEq, Repr

-- `setCloseCallback` has been queued for the connection
def Teardown.replaces (i : Nat) : Teardown → Bool
  | .replaced j _ | .forcing j _ => j = i
  | .returning j => j = some i
  | _ => false

/--
`calls` are the calls that other threads are in. `late` is history: whether `newConnection` or `removeConnection` was
executed when the client was gone.
-/
structure ClientThreads where
  loop : ClientLoop
  calls : List Pending
  teardown : Teardown
  late : Bool

/--
The steps of the loop thread, of the other threads that call the client or a connection that they hold, and of the
destructor. `others` says whether the user has references to the connection of its own.
-/
inductive ThreadLabel where
  | loop (a : Label)
  | call (c : ClientCall)
  | callConn (i : Nat) (c : Call)
  | advance (k : Nat)
  | destroy (others : Bool)
  | read (others : Bool)
  | setCloseCallback
  | testUnique
  | forceClose
  | stop
  | stopInLoop
  | endDestroy

namespace ClientLoop

/--
The connection is still to call the client back.
-/
def binds (s : ClientLoop) (i : Nat) : Bool :=
  (s.conns i).any fun x =>
    !x.detached && (!x.log.contains .handleClose || s.handler = some (.closeCallback i))

-- the step executes `newConnection` or `removeConnection`
def usesClient (s : ClientLoop) : Label → Bool
  | .newConnection | .connectEstablished | .removeConnection _ => true
  | .closeCallback =>
    match s.handler with
    | some (.closeCallback i) => s.binds i
    | _ => false
  | _ => false

-- `connection_` is a member
def release (s : ClientLoop) : ClientLoop :=
  { s with client := { s.client with connection_ := none } }

def forceClose (s : ClientLoop) (i : Nat) : Option ClientLoop :=
  (s.conns i).map fun x =>
    let (conn, loop) := x.conn.forceClose (.conn i) true s.loop
    s.put i x conn loop

-- the destructor on the loop thread
def destroy (s : ClientLoop) (unique : Bool) : Option ClientLoop :=
  match s.client.connection_ with
  | some i =>
    (s.conns i).bind fun x =>
      let s := s.setConn i { x with detached := true }
      (if unique then s.forceClose i else some s).map release
  | none => s.client.connector_.stop.map fun connector => (s.setConnector connector).release

-- every connection that is still to call the client back is the one that the destructor has found
def bindsOnly (s : ClientLoop) (found : Option Nat) : Bool :=
  (List.range s.client.nextConnId_).all fun i => !s.binds i || found = some i

-- the loop thread is neither in a function of the client, nor about to enter one
def outside (s : ClientLoop) : Bool :=
  match s.handler with
  | none => true
  | some (.closeCallback i) => !s.binds i
  | _ => false

-- the connector hands over nothing any more, unless it is started again
def spent (s : ClientLoop) : Bool :=
  !s.client.connector_.connect_ || s.client.connector_.spent && !(queueOf s.loop).contains .startInLoop

-- `removeConnection` goes on to `restart`
def restarts (s : ClientLoop) : Label → Bool
  | .removeConnection _ => s.client.retry_ && s.client.connect_
  | _ => false

end ClientLoop

namespace ClientThreads

def Started (s : ClientThreads) : Prop :=
  s.loop.Started ∧ s.calls = [] ∧ s.teardown = .running ∧ s.late = false

-- another thread is in a call on the client
def inClient (s : ClientThreads) : Bool :=
  s.calls.any Pending.isClient

-- `connection_.unique()`
def unique (s : ClientThreads) (i : Nat) (others : Bool) : Bool :=
  !others && !s.loop.shares i && !s.calls.any (Pending.isOn i)

-- another thread is between its load and its store of `state_`
def storing (s : ClientThreads) (i : Nat) : Bool :=
  s.calls.any (Pending.stores i) ||
    match s.teardown with
    | .forcing j caller => j = i && caller.stores
    | _ => false

-- nobody calls a client that is being destroyed
def enabled (s : ClientThreads) : ThreadLabel → Bool
  | .loop a => s.loop.enabled a && (!a.ofClient || s.teardown = .running)
  | .call c => c.begins && s.teardown = .running
  | .destroy _ => s.teardown = .running && !s.inClient && s.loop.inUserCode
  | .read _ => s.teardown = .running && !s.inClient
  | .callConn .. | .advance _ | .setCloseCallback | .testUnique | .forceClose | .stop | .stopInLoop | .endDestroy =>
    true

def next (s : ClientThreads) : ThreadLabel → Option ClientThreads
  | .loop a =>
    (s.loop.next a).map fun loop =>
      { s with loop := loop, late := s.late || s.teardown = .destroyed && s.loop.usesClient a }
  | .call c => some { s with calls := s.calls ++ [.client c] }
  | .callConn i c =>
    (s.loop.load i c).map fun caller => { s with calls := s.calls ++ (Pending.rest i caller).toList }
  | .advance k =>
    s.calls[k]?.bind fun c =>
      (s.loop.advance c).map fun (loop, rest) =>
        { s with loop := loop, calls := s.calls.eraseIdx k ++ rest.toList }
  | .destroy others =>
    (s.loop.destroy (s.loop.client.connection_.any (s.unique · others))).map fun loop =>
      { s with loop := loop, teardown := .destroyed }
  | .read others =>
    match s.loop.client.connection_ with
    | some i => some { s with teardown := .found i (s.unique i others) }
    | none => some { s with teardown := .empty }
  | .setCloseCallback =>
    match s.teardown with
    | .found i unique =>
      some { s with loop := s.loop.queueInLoop false (.setCloseCallback i), teardown := .replaced i unique }
    | _ => none
  | .testUnique =>
    match s.teardown with
    | .replaced i unique =>
      if unique then
        (s.loop.load i .forceClose).map fun caller => { s with teardown := .forcing i caller }
      else
        some { s with teardown := .returning (some i) }
    | _ => none
  | .forceClose =>
    match s.teardown with
    | .forcing i caller =>
      (s.loop.advanceConn i caller).map fun (loop, caller) =>
        { s with loop := loop, teardown := if caller = .idle then .returning (some i) else .forcing i caller }
    | _ => none
  | .stop =>
    match s.teardown with
    | .empty =>
      some
        { s with
            loop := s.loop.setConnector { s.loop.client.connector_ with connect_ := false }
            teardown := .stopping }
    | _ => none
  -- behind it `runAfter` is called for `removeConnector`, which crashes on the null `timerQueue_`; it is left out
  | .stopInLoop =>
    match s.teardown with
    | .stopping => some { s with loop := s.loop.queueInLoop false .stopInLoop, teardown := .returning none }
    | _ => none
  | .endDestroy =>
    match s.teardown with
    | .returning _ => some { s with loop := s.loop.release, teardown := .destroyed }
    | _ => none

def system : LTS ClientThreads ThreadLabel :=
  .guarded Started enabled next

/--
When a connection closes, no other thread is between its load and its store of `state_`. When the destructor
returns, no connection but the one that it has found is still to call the client back, and if it has found one, the
connector hands over nothing any more; on another thread, the loop thread is outside of the client then, and no
`removeConnection` has restarted the connector behind `stop`. The connection does not close until
`setCloseCallback` has run.
-/
def safe (s : ClientThreads) : ThreadLabel → Bool
  | .loop a =>
    (s.loop.closes a).all (fun i => !s.storing i) &&
      match s.teardown with
      | .destroyed => (s.loop.closes a).all fun i => !s.loop.binds i
      | .stopping | .returning none => !s.loop.restarts a
      | _ => true
  | .destroy _ =>
    s.loop.bindsOnly s.loop.client.connection_ && (s.loop.client.connection_.isNone || s.loop.spent)
  | .endDestroy =>
    match s.teardown with
    | .returning found => s.loop.outside && s.loop.bindsOnly found && (found.isNone || s.loop.spent)
    | _ => true
  | _ => true

end ClientThreads

end TcpClient

end MyMuduo
