import MyMuduo.TcpClient.Lifecycle
import MyMuduo.TcpConnection.ClosedOnce

/-!
This module contains the calls of other threads on a client and on its connections. Each access to what the
threads share is a step of its own, so that the loop thread can close a connection between a load of `state_` and
the store that follows from it.
-/

namespace MyMuduo

universe u

namespace TcpConnection

open Race (Caller)

/--
The next statement of a call that a thread other than the loop's is in, and what the thread is about to do then.
-/
def advance {φ : Type u} (bind : Task → φ) (c : TcpConnection) (l : EventLoop φ)
    : Caller → Option (TcpConnection × EventLoop φ × Caller)
  | .idle => none
  | .sending message len => some (c, l.queueInLoop false (bind (.own (.sendInLoop message len))), .idle)
  | .shuttingDown => some (c.setState .kDisconnecting, l, .shutDown)
  | .shutDown => some (c, l.queueInLoop false (bind (.own .shutdownInLoop)), .idle)
  | .forceTest => some (c, l, if c.state_ = .kDisconnecting then .forcing else .idle)
  | .forcing => some (c.setState .kDisconnecting, l, .forced)
  | .forced => some (c, l.queueInLoop false (bind .forceCloseInLoop), .idle)

/--
The statements are those of the connection with its server.
-/
theorem Race.advance_other {τ : Type} [DecidableEq τ] (s : Race τ) (t : τ) (contents : List UInt8) (w : WriteResult)
    : s.advance (.other t) contents w
        = (s.conn.advance id s.loop (s.callers (.other t))).map fun (conn, loop, caller) =>
            { s.setCaller (.other t) caller with conn := conn, loop := loop } := by
  cases hcaller : s.callers (.other t) <;> simp [Race.advance, TcpConnection.advance, hcaller, Race.setCaller]

/--
What a statement does: it may store `kDisconnecting`, or queue a functor.
-/
structure Advances {φ : Type u} (bind : Task → φ) (c c' : TcpConnection) (l l' : EventLoop φ) (caller caller' : Caller)
    : Prop where
  channel : c'.channel = c.channel
  poller : l'.poller = l.poller
  functors : l'.functors = l.functors
  pending : ∃ tasks : List Task, l'.pendingFunctors = l.pendingFunctors ++ tasks.map bind
    ∧ .connectEstablished ∉ tasks ∧ .connectDestroyed ∉ tasks
  state_ : c'.state_ = c.state_ ∨ caller.stores = true ∧ c'.state_ = .kDisconnecting
  loads : caller'.stores = true → c'.state_ = .kDisconnecting

theorem advances {φ : Type u} {bind : Task → φ} {c c' : TcpConnection} {l l' : EventLoop φ} {caller caller' : Caller}
    (h : c.advance bind l caller = some (c', l', caller')) : Advances bind c c' l l' caller caller' := by
  have hqueued : ∀ task : Task, task ≠ .connectEstablished → task ≠ .connectDestroyed →
      Advances bind c c l (l.queueInLoop false (bind task)) caller .idle := by
    intro task hopen hdestroy
    refine ⟨rfl, EventLoop.poller_queueInLoop .., by simp, ⟨[task], by simp, ?_, ?_⟩, .inl rfl, nofun⟩
    . simpa using hopen.symm
    . simpa using hdestroy.symm
  have hstored : ∀ caller', caller.stores = true → caller'.stores = false →
      Advances bind c (c.setState .kDisconnecting) l l caller caller' := by
    intro caller' hstores hnot
    refine ⟨rfl, rfl, rfl, ⟨[], by simp, by simp, by simp⟩, .inr ⟨hstores, rfl⟩, ?_⟩
    simp [hnot]
  cases caller with
  | idle => cases h
  | sending message len =>
    cases h
    exact hqueued _ (by simp) (by simp)
  | shutDown =>
    cases h
    exact hqueued _ (by simp) (by simp)
  | forced =>
    cases h
    exact hqueued _ (by simp) (by simp)
  | shuttingDown =>
    cases h
    exact hstored _ rfl rfl
  | forcing =>
    cases h
    exact hstored _ rfl rfl
  | forceTest =>
    cases h
    refine ⟨rfl, rfl, rfl, ⟨[], by simp, by simp, by simp⟩, .inl rfl, ?_⟩
    split
    . next hstate => exact fun _ => hstate
    . exact nofun

end TcpConnection

namespace TcpClient

open TcpConnection (Task)
open TcpConnection.Race (Call Caller)

/--
What a thread that is in a call on the client is about to do: to write `connect_`, or `retry_`, which is all of
`enableRetry`; to write the connector's `connect_`, behind it to queue the functor; and in `disconnect`, to read
`connection_` for its `shutdown`.
-/
inductive ClientCall where
  | enableRetry
  | connect
  | start
  | startInLoop
  | stop
  | stopConnector
  | stopInLoop
  | disconnect
  | shutdown
  deriving DecidableEq, Repr

def ClientCall.begins : ClientCall → Bool
  | .enableRetry | .connect | .stop | .disconnect => true
  | _ => false

/--
A call that another thread is in, on the client or on a connection.
-/
inductive Pending where
  | client (c : ClientCall)
  | conn (i : Nat) (caller : Caller)
  deriving DecidableEq, Repr

namespace Pending

def isClient : Pending → Bool
  | .client _ => true
  | .conn _ _ => false

def isOn (i : Nat) : Pending → Bool
  | .client _ => false
  | .conn j _ => j = i

-- the thread has seen that the connection is open and is about to store `kDisconnecting`
def stores (i : Nat) : Pending → Bool
  | .client _ => false
  | .conn j caller => j = i && caller.stores

-- what is left of a call on a connection
def rest (i : Nat) (caller : Caller) : Option Pending :=
  if caller = .idle then none else some (.conn i caller)

end Pending

theorem Stage.up_of_log {i : Nat} {x : Made} {v : View} (h : Stage i x v) (hlog : x.log = [.connectEstablished])
    : x.conn.state_ = .kConnected ∨ x.conn.state_ = .kDisconnecting := by
  cases h with
  | up _ state_ => exact state_
  | made log | closing log | closed log | destroyed log => simp [log] at hlog

namespace ClientLoop

-- the first load of `state_`
def load (s : ClientLoop) (i : Nat) (c : Call) : Option Caller :=
  (s.conns i).map fun x => c.load x.conn

def advanceConn (s : ClientLoop) (i : Nat) (caller : Caller) : Option (ClientLoop × Caller) :=
  (s.conns i).bind fun x =>
    (x.conn.advance (.conn i) s.loop caller).map fun (conn, loop, caller) => (s.put i x conn loop, caller)

-- the mutex of `connection_` is left out, with which `disconnect` calls `shutdown`
def advanceClient (s : ClientLoop) : ClientCall → Option (ClientLoop × Option Pending)
  | .enableRetry => some ({ s with client := s.client.enableRetry }, none)
  | .connect => some ({ s with client := { s.client with connect_ := true } }, some (.client .start))
  | .start =>
    some (s.setConnector { s.client.connector_ with connect_ := true }, some (.client .startInLoop))
  | .startInLoop => some (s.queueInLoop false .startInLoop, none)
  | .stop => some ({ s with client := { s.client with connect_ := false } }, some (.client .stopConnector))
  | .stopConnector =>
    some (s.setConnector { s.client.connector_ with connect_ := false }, some (.client .stopInLoop))
  | .stopInLoop => some (s.queueInLoop false .stopInLoop, none)
  | .disconnect => some ({ s with client := { s.client with connect_ := false } }, some (.client .shutdown))
  | .shutdown =>
    match s.client.connection_ with
    | none => some (s, none)
    | some i => (s.load i .shutdown).map fun caller => (s, Pending.rest i caller)

def advance (s : ClientLoop) : Pending → Option (ClientLoop × Option Pending)
  | .client c => s.advanceClient c
  | .conn i caller => (s.advanceConn i caller).map fun (s, caller) => (s, Pending.rest i caller)

/--
The connection is established and not closed.
-/
def IsUp (s : ClientLoop) (i : Nat) : Prop :=
  ∃ x, s.conns i = some x ∧ (x.conn.state_ = .kConnected ∨ x.conn.state_ = .kDisconnecting)

variable {s s' : ClientLoop} {i j : Nat} {x x' : Made} {a : Label} {caller caller' : Caller}

theorem isUp_of_load {c : Call} (h : s.load i c = some caller) (hstores : caller.stores = true) : s.IsUp i := by
  simp only [load, Option.map_eq_some_iff] at h
  obtain ⟨x, hx, rfl⟩ := h
  refine ⟨x, hx, .inl ?_⟩
  cases c <;> simp only [Call.load] at hstores <;> split at hstores <;> first | assumption | cases hstores

theorem isSome_of_load {c : Call} (h : s.load i c = some caller) : (s.conns i).isSome = true := by
  simp only [load, Option.map_eq_some_iff] at h
  obtain ⟨x, hx, _⟩ := h
  rw [hx]
  rfl

-- a function of a connection does not close one that is open, unless `closeCallback_` is called next
theorem IsUp.ran (h : s.IsUp i) (hwired : s.Wired) (hran : Ran s s' j x x')
    (hhandler : s'.handler = s.handler ∨ s'.handler = none ∨ j ≠ i) : s'.IsUp i := by
  obtain ⟨y, hy, hup⟩ := h
  by_cases heq : i = j
  . subst heq
    rw [hran.known, Option.some.injEq] at hy
    subst hy
    have hlog := ((hwired.stage i x hran.known).of_up hup).1
    refine ⟨x', by rw [hran.conns, Function.update_self], hran.stage.up_of_log ?_⟩
    cases hran.logged with
    | same log => exact log.trans hlog
    | established before fresh => simp [fresh] at hlog
    | closed before up log handler => simp [handler, before] at hhandler
    | destroyed before closed => simp [closed] at hlog
  . exact ⟨y, by rw [hran.conns, Function.update_of_ne heq, hy], hup⟩

theorem IsUp.effect (h : s.IsUp i) (hwired : s.Wired) (heffect : Effect s a s') (hcloses : s.closes a ≠ some i)
    : s'.IsUp i := by
  cases heffect with
  | client | handed | event | swap | started | stopped => exact h
  | ran j y y' ran handler =>
    refine h.ran hwired ran (handler.imp id fun hor => hor.imp id ?_)
    rintro hclosed rfl
    exact hcloses hclosed
  | newConnection next =>
    obtain ⟨sockfd, _, rfl⟩ := newConnection_cases next
    obtain ⟨x, hx, hup⟩ := h
    have hne : i ≠ s.client.nextConnId_ := Nat.ne_of_lt (hwired.number i x hx)
    exact ⟨x, (Function.update_of_ne hne ..).trans hx, hup⟩
  | closeCallback next => obtain ⟨_, _, _, _, ⟨_, rfl⟩ | ⟨_, rfl⟩⟩ := closeCallback_cases next <;> exact h
  | removeConnection savedErrno label next =>
    obtain ⟨_, _, _, rfl, _⟩ := removeConnection_cases next
    exact h
  | detached j y functors known head =>
    obtain ⟨x, hx, hup⟩ := h
    by_cases heq : i = j
    . subst heq
      rw [known, Option.some.injEq] at hx
      subst hx
      exact ⟨{ y with detached := true }, Function.update_self .., hup⟩
    . exact ⟨x, (Function.update_of_ne heq ..).trans hx, hup⟩

/--
A statement of a call on a connection, which stores `kDisconnecting` only while the connection is open.
-/
theorem Wired.ran_advanceConn (h : s.Wired) (hup : caller.stores = true → s.IsUp i)
    (hnext : s.advanceConn i caller = some (s', caller'))
    : ∃ x x', Ran s s' i x x' ∧ s'.handler = s.handler ∧ (caller'.stores = true → s'.IsUp i) := by
  simp only [advanceConn, Option.bind_eq_some_iff, Option.map_eq_some_iff, Prod.mk.injEq] at hnext
  obtain ⟨x, hx, ⟨c', l', _⟩, hadvance, rfl, rfl⟩ := hnext
  obtain ⟨hchannel, hpoller, hfunctors, ⟨tasks, hpending, hopen, hdestroy⟩, hstate, hloads⟩ :=
    TcpConnection.advances hadvance
  have hqueues : Queues i s.loop l' := ⟨tasks, by simp [queueOf, hfunctors, hpending], hopen, hdestroy⟩
  have hstores : caller.stores = true → x.conn.state_ = .kConnected ∨ x.conn.state_ = .kDisconnecting := by
    intro hstores
    obtain ⟨y, hy, hyUp⟩ := hup hstores
    rw [hx, Option.some.injEq] at hy
    exact hy ▸ hyUp
  have hcall : Stage i { x with conn := c' } (s.view i x) := by
    refine (h.stage i x hx).of_call rfl hchannel ?_ ?_
    . intro hbefore
      obtain hsame | ⟨_, hstored⟩ := hstate
      . exact hsame ▸ hbefore
      . exact .inr hstored
    . intro hnot
      exact hstate.resolve_right fun hstored => hnot (hstores hstored.1)
  refine ⟨x, { x with conn := c' }, ⟨acts_put (.of_eq hchannel hpoller) hqueues, hx, ?_, rfl, .inl rfl,
    .same rfl rfl⟩, rfl, fun hstores' => ⟨_, Function.update_self .., .inr (hloads hstores')⟩⟩
  refine hcall.of_same ⟨hqueues.destroys i, fun _ hmem => hmem, rfl⟩ ?_ ?_
  . simp only [view, put, setConn, hchannel, hpoller]
  . simp only [view, put, setConn, hchannel, hpoller]

-- a functor that is not of a connection
theorem Wired.queueInLoop {cb : ClientTask} (h : s.Wired) (hcb : ∀ i task, cb ≠ .conn i task)
    : (s.queueInLoop false cb).Wired := by
  refine h.of_queue (EventLoop.poller_queueInLoop ..) ?_
  intro i task
  simp only [queueOf, EventLoop.functors_queueInLoop, EventLoop.pendingFunctors_queueInLoop, List.count_append,
    List.count_singleton, beq_false_of_ne (hcb i task)]
  simp

theorem Wired.setConnect (h : s.Wired) (connect : Bool)
    : (s.setConnector { s.client.connector_ with connect_ := connect }).Wired := by
  have hfresh : Connector.Fresh { s.client.connector_ with connect_ := connect } :=
    ⟨{ h.connector.toAttached with }, h.connector.handed, h.connector.inFlight⟩
  exact h.setClient hfresh rfl rfl

/--
A statement of a call on the client leaves the connections alone, and goes on with one that it has found.
-/
theorem Wired.advanceClient {c : ClientCall} {rest : Option Pending} (h : s.Wired)
    (hnext : s.advanceClient c = some (s', rest))
    : s'.Wired ∧ s'.conns = s.conns ∧ s'.client.connection_ = s.client.connection_
        ∧ ∀ i caller, rest = some (.conn i caller) → (s.conns i).isSome = true ∧ (caller.stores = true → s.IsUp i) := by
  cases c with
  | enableRetry | connect | stop | disconnect =>
    cases hnext
    exact ⟨h.setClient h.connector rfl rfl, rfl, rfl, by simp⟩
  | start | stopConnector =>
    cases hnext
    exact ⟨h.setConnect _, rfl, rfl, by simp⟩
  | startInLoop | stopInLoop =>
    cases hnext
    exact ⟨h.queueInLoop (by simp), rfl, rfl, by simp⟩
  | shutdown =>
    simp only [ClientLoop.advanceClient] at hnext
    split at hnext
    . cases hnext
      exact ⟨h, rfl, rfl, by simp⟩
    . next j hconnection =>
      simp only [Option.map_eq_some_iff, Prod.mk.injEq] at hnext
      obtain ⟨caller, hload, rfl, rfl⟩ := hnext
      refine ⟨h, rfl, rfl, ?_⟩
      intro i caller' hrest
      simp only [Pending.rest, Option.ite_none_left_eq_some, Option.some.injEq, Pending.conn.injEq] at hrest
      obtain ⟨_, rfl, rfl⟩ := hrest
      exact ⟨isSome_of_load hload, isUp_of_load hload⟩

end ClientLoop

end TcpClient

end MyMuduo
