import MyMuduo.TcpClient.Steps
import MyMuduo.TcpConnection.Race

/-!
This module contains that a client holds its connection from the time it is made until it is closed, as long as
no attempt is put in flight while the connection is open, and what happens otherwise.
-/

namespace MyMuduo

namespace TcpClient

open TcpConnection (Task)

-- the functor holds a `shared_ptr` to the connection
def ClientTask.holds (i : Nat) : ClientTask → Bool
  | .conn j task => j = i && task.binds
  | .startInLoop | .stopInLoop => false
  | .setCloseCallback j => j = i

namespace ClientLoop

def isOpen (s : ClientLoop) (i : Nat) : Bool :=
  (s.conns i).any Made.isOpen

/--
`connection_` is null, or its connection is not open.
-/
def isFree (s : ClientLoop) : Bool :=
  s.client.connection_.all fun i => !s.isOpen i

/--
No attempt is put in flight while the connection is open.
-/
def StartsFree (s : ClientLoop) (a : Label) : Prop :=
  s.starts a = true → s.isFree = true

/--
A `shared_ptr` to the connection is held by a functor that waits, by the handler in progress, or by the
`handleEvent` in progress.
-/
def shares (s : ClientLoop) (i : Nat) : Bool :=
  (queueOf s.loop).any (·.holds i) || s.handler.any (·.concerns i) || s.active = i && !s.todo.isEmpty

def refers (s : ClientLoop) (i : Nat) : Bool :=
  s.client.connection_ = some i || s.shares i

/--
The client holds the connection from the time it is made until its `closeCallback_`.
-/
def Made.Held (s : ClientLoop) (i : Nat) (x : Made) : Prop :=
  x.log = [] ∨ x.isOpen = true ∨ s.handler = some (.closeCallback i)

structure Owned (s : ClientLoop) : Prop where
  attached : ∀ i x, s.conns i = some x → x.detached = false
  functors : ∀ cb ∈ queueOf s.loop, ∃ i task, cb = .conn i task
  known : ∀ i, s.client.connection_ = some i → (s.conns i).isSome = true
  held : ∀ i x, s.conns i = some x → (Made.Held s i x ↔ s.client.connection_ = some i)
  removing : ∀ i, s.handler = some (.removeConnection i) → s.client.connection_ = none
  free : s.client.connector_.state_ = .kConnecting ∨ (∃ sockfd, s.handler = some (.newConnection sockfd)) →
    s.isFree = true
  settled : (∃ sockfd, s.handler = some (.newConnection sockfd)) ∨ (∃ i, s.handler = some (.connectEstablished i)) →
    s.client.connector_.state_ ≠ .kConnecting

variable {s s' : ClientLoop} {i j : Nat} {x x' y : Made} {a : Label}

theorem Started.owned (h : s.Started) : s.Owned := by
  obtain ⟨⟨writeCompleteCallback, hclient⟩, hconns, _, hfunctors, hpending, _, hhandler⟩ := h
  constructor
  . simp [hconns]
  . simp [queueOf, hfunctors, hpending]
  . simp [hclient, new]
  . simp [hconns]
  . simp [hhandler]
  . simp [hclient, new, isFree]
  . simp [hhandler]

theorem isFree_iff
    : s.isFree = true ↔ ∀ i x, s.client.connection_ = some i → s.conns i = some x → x.isOpen = false := by
  unfold isFree isOpen
  cases s.client.connection_ with
  | none => simp
  | some i =>
    simp only [Option.all_some, Bool.not_eq_true', Option.some.injEq]
    constructor
    . rintro hnot _ x rfl hx
      rwa [hx] at hnot
    . intro hall
      cases hx : s.conns i with
      | none => rfl
      | some x => exact hall i x rfl hx

theorem isOpen_iff : s.isOpen i = true ↔ ∃ x, s.conns i = some x ∧ x.isOpen = true := by
  unfold isOpen
  cases s.conns i <;> simp

/--
A step that leaves the connections and `connection_` alone.
-/
theorem Owned.of_conns (h : s.Owned) (hconns : s'.conns = s.conns)
    (hconnection : s'.client.connection_ = s.client.connection_)
    (hfunctors : ∀ cb ∈ queueOf s'.loop, ∃ i task, cb = .conn i task)
    (hclosing : ∀ i, s'.handler = some (.closeCallback i) ↔ s.handler = some (.closeCallback i))
    (hremoving : ∀ i, s'.handler = some (.removeConnection i) → s.handler = some (.removeConnection i))
    (hfree : s'.client.connector_.state_ = .kConnecting ∨ (∃ sockfd, s'.handler = some (.newConnection sockfd)) →
      s.isFree = true)
    (hsettled : (∃ sockfd, s'.handler = some (.newConnection sockfd))
      ∨ (∃ i, s'.handler = some (.connectEstablished i)) → s'.client.connector_.state_ ≠ .kConnecting) : s'.Owned := by
  refine ⟨?_, hfunctors, ?_, ?_, ?_, ?_, hsettled⟩
  . rw [hconns]
    exact h.attached
  . rw [hconns, hconnection]
    exact h.known
  . intro i x hx
    rw [hconns] at hx
    unfold Made.Held
    rw [hclosing, hconnection]
    exact h.held i x hx
  . intro i hhandler
    rw [hconnection]
    exact h.removing i (hremoving i hhandler)
  . intro hstate
    have hbefore := hfree hstate
    unfold isFree isOpen at hbefore ⊢
    rw [hconnection, hconns]
    exact hbefore

-- the client and its connector have acted on behalf of the user, or of a timer
theorem Owned.of_client {client : TcpClient} (h : s.Owned) (huser : s.inUserCode = true)
    (hconnection : client.connection_ = s.client.connection_)
    (hstate : client.connector_.state_ = .kConnecting → s.client.connector_.state_ = .kConnecting ∨ s.starts a = true)
    (hok : s.StartsFree a) : Owned { s with client := client } := by
  refine h.of_conns rfl hconnection h.functors (fun _ => Iff.rfl) (fun _ => id) ?_ ?_
  . rintro (hconnecting | hcoming)
    . obtain hold | hstarts := hstate hconnecting
      . exact h.free (.inl hold)
      . exact hok hstarts
    . exact h.free (.inr hcoming)
  . intro hhandler
    obtain ⟨_, heq⟩ | ⟨_, heq⟩ := hhandler
    . have heq : s.handler = _ := heq
      simp [inUserCode, heq] at huser
    . have heq : s.handler = _ := heq
      simp [inUserCode, heq] at huser

/-
What a function of a connection does.
-/

theorem Acts.closing_of_ne (h : Acts s s' i x x') (hne : j ≠ i)
    : s'.handler = some (.closeCallback j) ↔ s.handler = some (.closeCallback j) := by
  have hfilter : ∀ handler : Option Handler,
      handler = some (.closeCallback j) ↔ handler.filter (·.concerns j) = some (.closeCallback j) := by
    intro handler
    cases handler with
    | none => simp
    | some handler => simp [Option.filter_eq_some_iff, Handler.concerns]
  rw [hfilter, hfilter s.handler, h.handler j hne]

theorem Ran.held (h : Ran s s' i x x') : Made.Held s' i x' ↔ Made.Held s i x := by
  unfold Made.Held
  cases h.logged with
  | same log handler => rw [log, handler, Made.isOpen, Made.isOpen, log]
  | established before fresh log handler => simp [fresh, log, handler, Made.isOpen]
  | closed before up log handler => simp [up, log, handler, before, Made.isOpen]
  | destroyed before closed log handler => simp [closed, log, handler, before, Made.isOpen]

-- the steps of `newConnection` and of the close go on only by themselves
theorem Ran.handler_of_known (h : Ran s s' i x x') {handler : Handler} (hhandler : s'.handler = some handler)
    (hother : ∀ j, handler ≠ .closeCallback j) : s.handler = some handler := by
  cases h.logged with
  | same log same => exact same ▸ hhandler
  | established before fresh log none => simp [none] at hhandler
  | closed before up log closing =>
    rw [closing, Option.some.injEq] at hhandler
    exact absurd hhandler.symm (hother i)
  | destroyed before closed log none => simp [none] at hhandler

theorem Ran.isOpen_of_ne (h : Ran s s' i x x') (hne : ∀ j, s.handler ≠ some (.connectEstablished j))
    (hopen : x'.isOpen = true) : x.isOpen = true := by
  cases h.logged with
  | same log => rwa [Made.isOpen, log] at hopen
  | established before => exact absurd before (hne i)
  | closed before up log => simp [Made.isOpen, log] at hopen
  | destroyed before closed log => simp [Made.isOpen, log] at hopen

theorem Owned.ran (h : s.Owned) (hran : Ran s s' i x x') : s'.Owned := by
  have hconnection : s'.client.connection_ = s.client.connection_ := by
    obtain heq | heq := hran.client <;> rw [heq]
  have hconnector := hran.connector
  have hcoming : ∀ sockfd, s'.handler = some (.newConnection sockfd) → s.handler = some (.newConnection sockfd) :=
    fun sockfd hhandler => hran.handler_of_known hhandler (by simp)
  refine ⟨?_, ?_, ?_, ?_, ?_, ?_, ?_⟩
  . intro j y hy
    obtain ⟨rfl, rfl⟩ | ⟨_, hy⟩ := hran.cases hy
    . rw [hran.detached]
      exact h.attached _ x hran.known
    . exact h.attached j y hy
  . intro cb hmem
    obtain hold | ⟨task, rfl, _⟩ := hran.tasks cb hmem
    . exact h.functors cb hold
    . exact ⟨i, task, rfl⟩
  . intro j hj
    rw [hconnection] at hj
    rw [hran.conns]
    exact isSome_update (h.known j hj)
  . intro j y hy
    rw [hconnection]
    obtain ⟨rfl, rfl⟩ | ⟨hne, hy⟩ := hran.cases hy
    . rw [hran.held]
      exact h.held _ x hran.known
    . unfold Made.Held
      rw [hran.closing_of_ne hne]
      exact h.held j y hy
  . intro j hhandler
    rw [hconnection]
    exact h.removing j (hran.handler_of_known hhandler (by simp))
  . rw [hconnector]
    intro hstate
    have hstate : s.client.connector_.state_ = .kConnecting ∨ ∃ sockfd, s.handler = some (.newConnection sockfd) :=
      hstate.imp id fun ⟨sockfd, hhandler⟩ => ⟨sockfd, hcoming sockfd hhandler⟩
    have hne : ∀ j, s.handler ≠ some (.connectEstablished j) := by
      intro j hhandler
      obtain hconnecting | ⟨sockfd, hcoming⟩ := hstate
      . exact h.settled (.inr ⟨j, hhandler⟩) hconnecting
      . simp [hhandler] at hcoming
    have hfree := isFree_iff.mp (h.free hstate)
    rw [isFree_iff]
    intro j y hj hy
    rw [hconnection] at hj
    obtain ⟨rfl, rfl⟩ | ⟨_, hy⟩ := hran.cases hy
    . rw [Bool.eq_false_iff]
      intro hopen
      have hold := hran.isOpen_of_ne hne hopen
      rw [hfree _ x hj hran.known] at hold
      cases hold
    . exact hfree j y hj hy
  . rw [hconnector]
    intro hhandler
    refine h.settled (hhandler.imp ?_ ?_)
    . exact fun ⟨sockfd, hhandler⟩ => ⟨sockfd, hcoming sockfd hhandler⟩
    . exact fun ⟨j, hhandler⟩ => ⟨j, hran.handler_of_known hhandler (by simp)⟩

/-
The steps of `newConnection` and of the close.
-/

theorem Owned.newConnection (h : s.Owned) (hwired : s.Wired) (hnext : s.newConnection = some s') : s'.Owned := by
  obtain ⟨sockfd, hhandler, rfl⟩ := newConnection_cases hnext
  have hfree := isFree_iff.mp (h.free (.inr ⟨sockfd, hhandler⟩))
  refine ⟨?_, h.functors, ?_, ?_, ?_, ?_, ?_⟩
  . intro j y hy
    obtain ⟨_, rfl⟩ | ⟨_, hy⟩ := cases_of_update hy
    . rfl
    . exact h.attached j y hy
  . rintro j ⟨rfl⟩
    simp [setConn]
  . intro j y hy
    dsimp only
    rw [Option.some.injEq, eq_comm (a := s.client.nextConnId_)]
    obtain ⟨rfl, rfl⟩ | ⟨hne, hy⟩ := cases_of_update hy
    . simp [Made.Held, made]
    . -- a connection made before is not held, for the client is free
      simp only [hne, iff_false]
      rintro (hlog | hopen | hclosing)
      . have heq := hwired.handler_of_log_nil hy hlog
        simp [hhandler] at heq
      . have hclosed := hfree j y ((h.held j y hy).mp (.inr (.inl hopen))) hy
        rw [hclosed] at hopen
        cases hopen
      . simp at hclosing
  . simp
  . intro hstate
    refine absurd ?_ (h.settled (.inl ⟨sockfd, hhandler⟩))
    simpa using hstate
  . intro _
    exact h.settled (.inl ⟨sockfd, hhandler⟩)

theorem Owned.closeCallback (h : s.Owned) (hwired : s.Wired) (hnext : s.closeCallback = some s') : s'.Owned := by
  obtain ⟨i, x, hhandler, hx, ⟨hdetached, rfl⟩ | ⟨_, rfl⟩⟩ := closeCallback_cases hnext
  . simp [h.attached i x hx] at hdetached
  . have hheld : s.client.connection_ = some i := (h.held i x hx).mp (.inr (.inr hhandler))
    have hlog := (closing_of_handler hwired hx (.inl hhandler)).1
    refine ⟨h.attached, h.functors, by simp, ?_, by simp, by simp [isFree], by simp⟩
    intro j y hy
    simp only [reduceCtorEq, iff_false]
    rintro (hnil | hopen | hclosing)
    . have heq := hwired.handler_of_log_nil hy hnil
      simp [hhandler] at heq
    . have hj := (h.held j y hy).mp (.inr (.inl hopen))
      rw [hheld, Option.some.injEq] at hj
      subst hj
      have hy : s.conns i = some y := hy
      rw [hx, Option.some.injEq] at hy
      subst hy
      simp [Made.isOpen, hlog] at hopen
    . simp at hclosing

theorem Owned.removeConnection {savedErrno : Nat} (h : s.Owned) (hnext : s.removeConnection savedErrno = some s')
    : s'.Owned := by
  obtain ⟨i, connector, hhandler, rfl, _⟩ := removeConnection_cases hnext
  have hfree : s.isFree = true := by
    simp [isFree, h.removing i hhandler]
  refine h.of_conns rfl rfl ?_ (by simp [hhandler]) (by simp) (fun _ => hfree) (by simp)
  intro cb hmem
  simp only [queueOf, EventLoop.functors_queueInLoop, EventLoop.pendingFunctors_queueInLoop, ← List.append_assoc,
    List.mem_append, List.mem_singleton] at hmem
  obtain hold | rfl := hmem
  . exact h.functors cb (List.mem_append.mpr hold)
  . exact ⟨i, _, rfl⟩

theorem Owned.effect (h : s.Owned) (hwired : s.Wired) (hok : s.StartsFree a) (heffect : Effect s a s') : s'.Owned := by
  cases heffect with
  | client client user connection number keeps => exact h.of_client user connection keeps.state hok
  | ran i x x' ran => exact h.ran ran
  | handed connector sockfd idle before connect fresh state =>
    refine h.of_conns rfl rfl h.functors (by simp [idle]) (by simp) (fun _ => h.free (.inl before)) ?_
    simp [setConnector, state]
  | newConnection next => exact h.newConnection hwired next
  | closeCallback next => exact h.closeCallback hwired next
  | removeConnection savedErrno label next => exact h.removeConnection next
  | event i x revents known reports =>
    exact h.of_conns rfl rfl h.functors (fun _ => Iff.rfl) (fun _ => id) h.free h.settled
  | swap empty =>
    refine h.of_conns rfl rfl ?_ (fun _ => Iff.rfl) (fun _ => id) h.free h.settled
    intro cb hmem
    apply h.functors cb
    simpa [queueOf, EventLoop.swapFunctors, empty] using hmem
  | started connector functors head =>
    obtain ⟨_, _, heq⟩ := h.functors .startInLoop (by simp [queueOf, head])
    cases heq
  | stopped connector functors head =>
    obtain ⟨_, _, heq⟩ := h.functors .stopInLoop (by simp [queueOf, head])
    cases heq
  | detached i x functors known head =>
    obtain ⟨_, _, heq⟩ := h.functors (.setCloseCallback i) (by simp [queueOf, head])
    cases heq

theorem owned_reachable (h : system.ReachableBy StartsFree s) : s.Owned := by
  have hboth : s.Wired ∧ s.Owned := by
    refine h.invariant (fun s => s.Wired ∧ s.Owned) ?_ ?_
    . exact fun s hinit => ⟨hinit.wired, hinit.owned⟩
    . rintro s a s' ⟨hwired, howned⟩ hok hstep
      exact ⟨hwired.step hstep, howned.effect hwired hok (hwired.effect hstep)⟩
  exact hboth.2

/-
What holds of the client, as long as no attempt is put in flight while its connection is open.
-/

theorem Owned.connection_of_isOpen (h : s.Owned) (hopen : s.isOpen i = true) : s.client.connection_ = some i := by
  obtain ⟨x, hx, hopen⟩ := isOpen_iff.mp hopen
  exact (h.held i x hx).mp (.inr (.inl hopen))

theorem Owned.connection_of_closeCallback (hwired : s.Wired) (h : s.Owned)
    (hhandler : s.handler = some (.closeCallback i)) : s.client.connection_ = some i := by
  have hconcerns : s.handler.filter (·.concerns i) = some (.closeCallback i) := by
    simp [hhandler, Option.filter_some, Handler.concerns]
  obtain ⟨x, hx⟩ := Option.isSome_iff_exists.mp (hwired.handlers i _ hconcerns)
  exact (h.held i x hx).mp (.inr (.inr hhandler))

theorem dropped_of_step (hwired : s.Wired) (h : s.Owned) (hstep : system.step s a = some s')
    (hholds : s.client.connection_ = some i) (hdrops : s'.client.connection_ ≠ some i)
    : ∃ x, s.conns i = some x ∧ .handleClose ∈ x.log := by
  obtain ⟨x, hx⟩ := Option.isSome_iff_exists.mp (h.known i hholds)
  refine ⟨x, hx, ?_⟩
  cases hwired.effect hstep with
  | client client user connection => exact absurd (connection.trans hholds) hdrops
  | ran j y y' ran =>
    obtain heq | heq := ran.client <;> exact absurd (by rw [heq]; exact hholds) hdrops
  | newConnection next =>
    obtain ⟨sockfd, hhandler, rfl⟩ := newConnection_cases next
    have hclosed := isFree_iff.mp (h.free (.inr ⟨sockfd, hhandler⟩)) i x hholds hx
    cases hwired.stage i x hx with
    | made log =>
      have heq := hwired.handler_of_log_nil hx log
      simp [hhandler] at heq
    | up log => simp [Made.isOpen, log] at hclosed
    | closing log | closed log | destroyed log => simp [log]
  | closeCallback next =>
    obtain ⟨j, y, hhandler, _, _⟩ := closeCallback_cases next
    have hj := h.connection_of_closeCallback hwired hhandler
    rw [hholds, Option.some.injEq] at hj
    subst hj
    simp [(closing_of_handler hwired hx (.inl hhandler)).1]
  | removeConnection savedErrno label next =>
    obtain ⟨j, connector, hhandler, _⟩ := removeConnection_cases next
    simp [h.removing j hhandler] at hholds
  | handed | event | swap | started | stopped | detached => exact absurd hholds hdrops

theorem unregistered_of_unheld (hwired : s.Wired) (h : s.Owned) (hx : s.conns i = some x) (hrefs : s.refers i = false)
    : s.loop.poller.epoll x.conn.channel.fd = none ∧ s.loop.poller.channels x.conn.channel.fd = none := by
  simp only [refers, shares, Bool.or_eq_false_iff, decide_eq_false_iff_not, List.any_eq_false] at hrefs
  obtain ⟨hconnection, ⟨hfunctors, hhandler⟩, _⟩ := hrefs
  have hunheld : ¬Made.Held s i x := fun hheld => hconnection ((h.held i x hx).mp hheld)
  cases hwired.stage i x hx with
  | made log => exact absurd (.inl log) hunheld
  | up log => exact absurd (.inr (.inl (by simp [Made.isOpen, log]))) hunheld
  | closing _ _ _ handler =>
    exfalso
    simp only [view, Option.filter_eq_some_iff] at handler
    obtain ⟨heq, hconcerns⟩ | ⟨heq, hconcerns⟩ := handler <;> simp [heq, hconcerns] at hhandler
  | closed _ _ destroys =>
    have hmem : .conn i .connectDestroyed ∈ queueOf s.loop := by
      rw [← List.count_pos_iff]
      simp only [view] at destroys
      omega
    exact absurd (by simp [ClientTask.holds, Task.binds]) (hfunctors _ hmem)
  | destroyed _ shut channels => exact ⟨shut.epoll, channels⟩

/--
At most one connection is open; the step of `newConnection` replaces no open connection; at its `closeCallback_`, a
connection is the one that the client holds; the client drops a connection only behind its `handleClose`; and a
connection to which nothing refers is not in the poller.
-/
structure HoldsConnection (s : ClientLoop) : Prop where
  one : ∀ i j, s.isOpen i = true → s.isOpen j = true → i = j
  newConnection : ∀ s', system.step s .newConnection = some s' → s.isFree = true
  closeCallback : ∀ i, s.handler = some (.closeCallback i) → s.client.connection_ = some i
  dropped : ∀ i a s', system.step s a = some s' → s.client.connection_ = some i → s'.client.connection_ ≠ some i →
    ∃ x, s.conns i = some x ∧ .handleClose ∈ x.log
  unregistered : ∀ i x, s.conns i = some x → s.refers i = false →
    s.loop.poller.epoll x.conn.channel.fd = none ∧ s.loop.poller.channels x.conn.channel.fd = none

theorem holds_connection (h : system.ReachableBy StartsFree s) : s.HoldsConnection := by
  have hwired := wired_reachable h
  have howned := owned_reachable h
  refine ⟨?_, ?_, ?_, ?_, ?_⟩
  . intro i j hi hj
    have hconnection := howned.connection_of_isOpen hi
    rwa [howned.connection_of_isOpen hj, Option.some.injEq, eq_comm] at hconnection
  . intro s' hstep
    obtain ⟨_, hnext⟩ := LTS.guarded_step.mp hstep
    obtain ⟨sockfd, hhandler, _⟩ := newConnection_cases hnext
    exact howned.free (.inr ⟨sockfd, hhandler⟩)
  . exact fun i hhandler => howned.connection_of_closeCallback hwired hhandler
  . exact fun i a s' hstep hholds hdrops => dropped_of_step hwired howned hstep hholds hdrops
  . exact fun i x hx hrefs => unregistered_of_unheld hwired howned hx hrefs

-- the server closes the first connection, and the client connects again
def reconnected : List Label :=
  [.enableRetry, .connect Connector.EINPROGRESS, .handleWrite 0 false, .newConnection, .connectEstablished,
    .handleEvent 1 EPOLLHUP, .callback 0 (.accepted 0), .closeCallback, .removeConnection Connector.EINPROGRESS, .swap,
    .runFunctor [] (.accepted 0) 0, .handleWrite 0 false, .newConnection, .connectEstablished]

theorem holds_connection_reconnected
    : ∃ s, system.runChecked (fun s a => !s.starts a || s.isFree) started reconnected = some s
        ∧ s.isOpen 2 = true ∧ s.refers 1 = false ∧ s.HoldsConnection := by
  have h : system.runChecked (fun s a => !s.starts a || s.isFree) started reconnected = some _ := rfl
  refine ⟨_, h, rfl, rfl, holds_connection ?_⟩
  refine LTS.ReachableBy.runChecked ?_ (.init started_init) h
  intro s a hcheck hstarts
  simpa [hstarts] using hcheck

-- the user calls `connect` while the connection is open
def connectedTwice : List Label :=
  [.connect Connector.EINPROGRESS, .handleWrite 0 false, .newConnection, .connectEstablished,
    .connect Connector.EINPROGRESS, .handleWrite 0 false, .newConnection, .connectEstablished]

/--
The first connection is open, and is in the poller, when nothing refers to it any more.
-/
theorem connectedTwice_replaces
    : ∃ s, system.Reachable s ∧ s.isOpen 1 = true ∧ s.isOpen 2 = true ∧ s.refers 1 = false
        ∧ (s.conns 1).any (fun x => (s.loop.poller.epoll x.conn.channel.fd).isSome) = true ∧ ¬s.HoldsConnection := by
  have h : system.run started connectedTwice = some _ := rfl
  refine ⟨_, LTS.Reachable.run (.init started_init) h, rfl, rfl, rfl, rfl, ?_⟩
  intro hholds
  exact absurd (hholds.one 1 2 rfl rfl) (by decide)

end ClientLoop

end TcpClient

end MyMuduo
