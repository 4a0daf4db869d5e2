import MyMuduo.TcpClient.Threads

/-!
This module contains that a client that is gone is not called back, when its destructor was safe.
-/

namespace MyMuduo

namespace TcpClient

namespace ClientLoop

/--
`closeCallback_` of the connection has been replaced, or the functor that replaces it waits.
-/
def Promised (s : ClientLoop) (i : Nat) : Prop :=
  ∃ x, s.conns i = some x ∧ (x.detached = true ∨ .setCloseCallback i ∈ queueOf s.loop)

/--
Nothing that the loop still has to do calls the client, unless a connection closes too early.
-/
structure Gone (s : ClientLoop) : Prop where
  handler : s.handler = none ∨ ∃ i, s.handler = some (.closeCallback i) ∧ s.binds i = false
  spent : s.spent = true
  promised : ∀ i, s.binds i = true → s.Promised i

variable {s s' : ClientLoop} {i j : Nat} {x x' : Made} {a : Label}

theorem binds_eq_true
    : s.binds i = true ↔
        ∃ x, s.conns i = some x ∧ x.detached = false
          ∧ (.handleClose ∉ x.log ∨ s.handler = some (.closeCallback i)) := by
  unfold binds
  cases s.conns i <;> simp

theorem Promised.mono (h : s.Promised i) (hconns : s'.conns = s.conns)
    (hqueue : .setCloseCallback i ∈ queueOf s.loop → .setCloseCallback i ∈ queueOf s'.loop) : s'.Promised i := by
  obtain ⟨x, hx, hpromised⟩ := h
  exact ⟨x, hconns ▸ hx, hpromised.imp id hqueue⟩

theorem Promised.ran (h : s.Promised i) (hran : Ran s s' j x x') : s'.Promised i := by
  obtain ⟨y, hy, hpromised⟩ := h
  have hkept : .setCloseCallback i ∈ queueOf s.loop → .setCloseCallback i ∈ queueOf s'.loop :=
    fun hmem => hran.kept _ hmem (by simp)
  by_cases heq : i = j
  . subst heq
    rw [hran.known, Option.some.injEq] at hy
    subst hy
    refine ⟨x', by rw [hran.conns, Function.update_self], ?_⟩
    rw [hran.detached]
    exact hpromised.imp id hkept
  . refine ⟨y, ?_, hpromised.imp id hkept⟩
    rw [hran.conns, Function.update_of_ne heq, hy]

theorem spent_iff
    : s.spent = true ↔ s.client.connector_.connect_ = false
        ∨ s.client.connector_.spent = true ∧ .startInLoop ∉ queueOf s.loop := by
  simp [spent]

theorem spent_of_off (h : s.client.connector_.connect_ = false) : s.spent = true :=
  spent_iff.mpr (.inl h)

theorem connector_spent (h : s.spent = true) : s.client.connector_.spent = true := by
  obtain hoff | ⟨hspent, _⟩ := spent_iff.mp h
  . exact Connector.spent_of_off hoff
  . exact hspent

theorem spent_mono (h : s.spent = true)
    (hconnect : s'.client.connector_.connect_ = s.client.connector_.connect_)
    (hspent : s.client.connector_.spent = true → s'.client.connector_.spent = true)
    (hqueue : .startInLoop ∈ queueOf s'.loop → .startInLoop ∈ queueOf s.loop) : s'.spent = true := by
  rw [spent_iff] at h ⊢
  refine h.imp hconnect.trans ?_
  exact fun ⟨hold, hnot⟩ => ⟨hspent hold, fun hmem => hnot (hqueue hmem)⟩

theorem spent_of_ran (h : s.spent = true) (hran : Ran s s' j x x') : s'.spent = true := by
  refine spent_mono h (by rw [hran.connector]) (by rw [hran.connector]; exact id) ?_
  intro hmem
  obtain hold | ⟨_, heq, _⟩ := hran.tasks _ hmem
  . exact hold
  . cases heq

theorem mem_queueOf_queueInLoop {l : EventLoop ClientTask} {isInLoopThread : Bool} {cb cb' : ClientTask}
    (hmem : cb ∈ queueOf l) : cb ∈ queueOf (l.queueInLoop isInLoopThread cb') := by
  simp only [queueOf, EventLoop.functors_queueInLoop, EventLoop.pendingFunctors_queueInLoop, ← List.append_assoc]
  exact List.mem_append_left _ hmem

theorem Promised.effect (h : s.Promised i) (hwired : s.Wired) (heffect : Effect s a s') : s'.Promised i := by
  cases heffect with
  | client | handed | event => exact h.mono rfl id
  | ran j y y' ran => exact h.ran ran
  | newConnection next =>
    obtain ⟨sockfd, _, rfl⟩ := newConnection_cases next
    obtain ⟨x, hx, hpromised⟩ := h
    refine ⟨x, ?_, hpromised⟩
    have hne : i ≠ s.client.nextConnId_ := Nat.ne_of_lt (hwired.number i x hx)
    exact (Function.update_of_ne hne ..).trans hx
  | closeCallback next =>
    obtain ⟨j, y, _, _, ⟨_, rfl⟩ | ⟨_, rfl⟩⟩ := closeCallback_cases next
    . exact h.mono rfl mem_queueOf_queueInLoop
    . exact h.mono rfl id
  | removeConnection savedErrno label next =>
    obtain ⟨j, connector, _, rfl, _⟩ := removeConnection_cases next
    exact h.mono rfl mem_queueOf_queueInLoop
  | swap empty =>
    refine h.mono rfl ?_
    simp [queueOf, EventLoop.swapFunctors, empty]
  | started connector functors head | stopped connector functors head =>
    refine h.mono rfl ?_
    simp [queueOf, head, setConnector]
  | detached j y functors known head =>
    obtain ⟨x, hx, hpromised⟩ := h
    by_cases heq : i = j
    . subst heq
      exact ⟨{ y with detached := true }, by simp [setConn], .inl rfl⟩
    . refine ⟨x, (Function.update_of_ne heq ..).trans hx, hpromised.imp id ?_⟩
      simp [queueOf, head, setConn, heq]

/-
What the loop thread does when the client is gone.
-/

theorem Gone.mono (h : s.Gone) (hbinds : ∀ i, s'.binds i = true → s.binds i = true)
    (hhandler : s'.handler = s.handler ∨ s'.handler = none) (hspent : s'.spent = true)
    (hpromised : ∀ i, s.Promised i → s'.Promised i) : s'.Gone := by
  refine ⟨?_, hspent, fun i hi => hpromised i (h.promised i (hbinds i hi))⟩
  obtain heq | heq := hhandler
  . rw [heq]
    refine h.handler.imp id ?_
    rintro ⟨i, hi, hnot⟩
    refine ⟨i, hi, ?_⟩
    rw [Bool.eq_false_iff] at hnot ⊢
    exact fun hbinds' => hnot (hbinds i hbinds')
  . exact .inl heq

theorem binds_congr (hconns : s'.conns = s.conns) (hhandler : s'.handler = s.handler) (i : Nat)
    (h : s'.binds i = true) : s.binds i = true := by
  unfold binds at h ⊢
  rwa [← hconns, ← hhandler]

-- the loop thread does not enter a function of the client
theorem Gone.usesClient (h : s.Gone) (hstep : system.step s a = some s') : s.usesClient a = false := by
  obtain ⟨_, hnext⟩ := LTS.guarded_step.mp hstep
  obtain hidle | ⟨i, hclosing, hbinds⟩ := h.handler
  . cases a <;> simp_all [ClientLoop.usesClient, next, ClientLoop.newConnection, ClientLoop.connectEstablished,
      ClientLoop.removeConnection]
  . cases a <;> simp_all [ClientLoop.usesClient, next, ClientLoop.newConnection, ClientLoop.connectEstablished,
      ClientLoop.removeConnection]

theorem Gone.closing (h : s.Gone) {i : Nat} (hhandler : s.handler = some (.closeCallback i)) : s.binds i = false := by
  obtain heq | ⟨j, heq, hbinds⟩ := h.handler
  . simp [heq] at hhandler
  . rw [hhandler, Option.some.injEq, Handler.closeCallback.injEq] at heq
    exact heq ▸ hbinds

theorem Ran.binds_of_ne (h : Ran s s' j x x') (hne : i ≠ j) (hbinds : s'.binds i = true) : s.binds i = true := by
  obtain ⟨y, hy, hdetached, hclose⟩ := binds_eq_true.mp hbinds
  obtain ⟨rfl, _⟩ | ⟨_, hy⟩ := h.cases hy
  . exact absurd rfl hne
  . exact binds_eq_true.mpr ⟨y, hy, hdetached, hclose.imp id (h.closing_of_ne hne).mp⟩

theorem Ran.binds_self (h : Ran s s' j x x') (hbinds : s'.binds j = true)
    : x.detached = false ∧ (.handleClose ∉ x'.log ∨ s'.handler = some (.closeCallback j)) := by
  obtain ⟨y, hy, hdetached, hclose⟩ := binds_eq_true.mp hbinds
  obtain ⟨_, rfl⟩ | ⟨hne, _⟩ := h.cases hy
  . exact ⟨h.detached ▸ hdetached, hclose⟩
  . exact absurd rfl hne

theorem Gone.ran (h : s.Gone) (hran : Ran s s' j x x')
    (hsafe : s'.handler = s.handler ∨ s'.handler = none ∨ s.binds j = false) : s'.Gone := by
  have hspent : s'.spent = true := spent_of_ran h.spent hran
  have hmono : (s'.binds j = true → s.binds j = true) → ∀ i, s'.binds i = true → s.binds i = true := by
    intro hself i hi
    by_cases heq : i = j
    . subst heq
      exact hself hi
    . exact hran.binds_of_ne heq hi
  cases hran.logged with
  | same log handler =>
    refine h.mono (hmono ?_) (.inl handler) hspent fun i hi => hi.ran hran
    intro hself
    obtain ⟨hdetached, hclose⟩ := hran.binds_self hself
    rw [log, handler] at hclose
    exact binds_eq_true.mpr ⟨x, hran.known, hdetached, hclose⟩
  | established before =>
    obtain heq | ⟨_, heq, _⟩ := h.handler <;> simp [heq] at before
  | closed before up log handler =>
    -- the connection may close, for it does not call the client back
    have hbound : s.binds j = false := by
      obtain heq | heq | hnot := hsafe
      . simp [handler, before] at heq
      . simp [handler] at heq
      . exact hnot
    have hdetached : x.detached = true := by
      by_contra hattached
      have hbinds : s.binds j = true :=
        binds_eq_true.mpr ⟨x, hran.known, by simpa using hattached, .inl (by simp [up])⟩
      rw [hbound] at hbinds
      cases hbinds
    have hself : s'.binds j = false := by
      rw [Bool.eq_false_iff]
      intro hself
      simp [(hran.binds_self hself).1] at hdetached
    refine ⟨.inr ⟨j, handler, hself⟩, hspent, ?_⟩
    intro i hi
    refine (h.promised i (hmono ?_ i hi)).ran hran
    simp [hself]
  | destroyed before closed log handler =>
    refine h.mono (hmono ?_) (.inr handler) hspent fun i hi => hi.ran hran
    intro hself
    have hclose := (hran.binds_self hself).2
    simp [log, handler] at hclose

theorem Gone.effect (h : s.Gone) (hwired : s.Wired) (ha : a.ofClient = false)
    (hsafe : ∀ i, s.closes a = some i → s.binds i = false) (heffect : Effect s a s') : s'.Gone := by
  have hpromised : ∀ i, s.Promised i → s'.Promised i := fun i hi => hi.effect hwired heffect
  cases heffect with
  | client client user connection number keeps spent =>
    exact h.mono (binds_congr rfl rfl) (.inl rfl) (spent_mono h.spent (spent ha).1 (spent ha).2 id) hpromised
  | ran j y y' ran handler => exact h.ran ran (handler.imp id fun hor => hor.imp id (hsafe j))
  | handed connector sockfd idle before connect =>
    obtain hoff | ⟨hstate, _⟩ := Connector.spent_iff.mp (connector_spent h.spent)
    . simp [hoff] at connect
    . exact absurd before hstate
  | newConnection next =>
    obtain ⟨sockfd, hhandler, _⟩ := newConnection_cases next
    obtain heq | ⟨_, heq, _⟩ := h.handler <;> simp [heq] at hhandler
  | closeCallback next =>
    obtain ⟨i, y, hhandler, hy, ⟨_, rfl⟩ | ⟨hattached, _⟩⟩ := closeCallback_cases next
    . have hspent : ClientLoop.spent { s with
          loop := s.loop.queueInLoop true (.conn i .connectDestroyed)
          handler := none } = true := by
        refine spent_mono h.spent rfl id ?_
        simp [queueOf]
      refine h.mono ?_ (.inr rfl) hspent hpromised
      intro k hk
      obtain ⟨z, hz, hdetached, hclose⟩ := binds_eq_true.mp hk
      exact binds_eq_true.mpr ⟨z, hz, hdetached, .inl (hclose.resolve_right (by simp))⟩
    . have hbinds : s.binds i = true := binds_eq_true.mpr ⟨y, hy, hattached, .inr hhandler⟩
      rw [h.closing hhandler] at hbinds
      cases hbinds
  | removeConnection savedErrno label next =>
    obtain ⟨i, _, hhandler, _⟩ := removeConnection_cases next
    obtain heq | ⟨_, heq, _⟩ := h.handler <;> simp [heq] at hhandler
  | event => exact h.mono (binds_congr rfl rfl) (.inl rfl) h.spent hpromised
  | swap empty =>
    have hspent : ClientLoop.spent { s with loop := s.loop.swapFunctors } = true := by
      refine spent_mono h.spent rfl id ?_
      simp [queueOf, EventLoop.swapFunctors, empty]
    exact h.mono (binds_congr rfl rfl) (.inl rfl) hspent hpromised
  | started connector functors head keeps connect off =>
    -- with the functor in the queue, `connect_` is off
    obtain hoff | ⟨_, hnot⟩ := spent_iff.mp h.spent
    . exact h.mono (binds_congr rfl rfl) (.inl rfl) (spent_of_off (connect.trans hoff)) hpromised
    . simp [queueOf, head] at hnot
  | stopped connector functors head keeps spent =>
    refine h.mono (binds_congr rfl rfl) (.inl rfl) (spent_mono h.spent spent.1 spent.2 ?_) hpromised
    simp [queueOf, head, setConnector]
  | detached j y functors known head =>
    have hspent : ClientLoop.spent
        (setConn { s with loop := { s.loop with functors := functors } } j { y with detached := true }) = true := by
      refine spent_mono h.spent rfl id ?_
      simp [queueOf, head, setConn]
    refine h.mono ?_ (.inl rfl) hspent hpromised
    intro k hk
    obtain ⟨z, hz, hdetached, hclose⟩ := binds_eq_true.mp hk
    obtain ⟨_, rfl⟩ | ⟨_, hz⟩ := cases_of_update hz
    . cases hdetached
    . exact binds_eq_true.mpr ⟨z, hz, hdetached, hclose⟩

theorem binds_of_bindsOnly {found : Option Nat} (h : s.Wired) (honly : s.bindsOnly found = true)
    (hi : s.binds i = true) : found = some i := by
  obtain ⟨x, hx, _⟩ := binds_eq_true.mp hi
  simp only [bindsOnly, List.all_eq_true, List.mem_range, Bool.or_eq_true, Bool.not_eq_true',
    decide_eq_true_eq] at honly
  obtain hnot | hfound := honly i (h.number i x hx)
  . simp [hi] at hnot
  . exact hfound

-- when the destructor returns
theorem Gone.of_found {found : Option Nat} (hwired : s.Wired) (houtside : s.outside = true)
    (honly : s.bindsOnly found = true) (hspent : s.spent = true) (hpromised : ∀ i, found = some i → s.Promised i)
    : s.Gone := by
  refine ⟨?_, hspent, ?_⟩
  . unfold outside at houtside
    split at houtside
    . next hnone => exact .inl hnone
    . next i hclosing => exact .inr ⟨i, hclosing, by simpa using houtside⟩
    . cases houtside
  . exact fun i hi => hpromised i (binds_of_bindsOnly hwired honly hi)

theorem Wired.release (h : s.Wired) : s.release.Wired :=
  h.setClient h.connector rfl rfl

theorem Gone.release (h : s.Gone) : s.release.Gone :=
  ⟨h.handler, h.spent, h.promised⟩

-- `connect_` stays off unless the user starts the connector, or `removeConnection` restarts it
theorem off_of_effect (hoff : s.client.connector_.connect_ = false) (ha : a.ofClient = false)
    (hrestarts : s.restarts a = false) (heffect : Effect s a s') : s'.client.connector_.connect_ = false := by
  cases heffect with
  | client client user connection number keeps spent => exact (spent ha).1.trans hoff
  | ran i x x' ran => exact ran.connector ▸ hoff
  | handed connector sockfd idle before connect => simp [hoff] at connect
  | newConnection next =>
    obtain ⟨_, _, rfl⟩ := newConnection_cases next
    exact hoff
  | closeCallback next =>
    obtain ⟨_, _, _, _, ⟨_, rfl⟩ | ⟨_, rfl⟩⟩ := closeCallback_cases next <;> exact hoff
  | removeConnection savedErrno label next =>
    obtain ⟨_, _, _, rfl, rfl | ⟨hretry, _⟩⟩ := removeConnection_cases next
    . exact hoff
    . rw [label, restarts, hretry] at hrestarts
      cases hrestarts
  | event | swap | detached => exact hoff
  | started connector functors head keeps connect => exact connect.trans hoff
  | stopped connector functors head keeps spent => exact spent.1.trans hoff

-- the connections that exist
theorem isSome_of_effect (heffect : Effect s a s') (hi : (s.conns i).isSome = true) : (s'.conns i).isSome = true := by
  cases heffect with
  | client | handed | event | swap | started | stopped => exact hi
  | ran j x x' ran => exact ran.conns ▸ isSome_update hi
  | newConnection next =>
    obtain ⟨_, _, rfl⟩ := newConnection_cases next
    exact isSome_update hi
  | closeCallback next => obtain ⟨_, _, _, _, ⟨_, rfl⟩ | ⟨_, rfl⟩⟩ := closeCallback_cases next <;> exact hi
  | removeConnection savedErrno label next =>
    obtain ⟨_, _, _, rfl, _⟩ := removeConnection_cases next
    exact hi
  | detached j x functors known head => exact isSome_update hi

theorem connection_of_effect (heffect : Effect s a s') (hi : s'.client.connection_ = some i)
    : s.client.connection_ = some i ∨ (s'.conns i).isSome = true := by
  cases heffect with
  | client client user connection => exact .inl (connection ▸ hi)
  | ran j x x' ran => exact .inl (by obtain heq | heq := ran.client <;> rwa [heq] at hi)
  | newConnection next =>
    obtain ⟨_, _, rfl⟩ := newConnection_cases next
    obtain rfl := Option.some.inj hi
    exact .inr (by simp [setConn])
  | closeCallback next =>
    obtain ⟨_, _, _, _, ⟨_, rfl⟩ | ⟨_, rfl⟩⟩ := closeCallback_cases next
    . exact .inl hi
    . cases hi
  | removeConnection savedErrno label next =>
    obtain ⟨_, _, _, rfl, _⟩ := removeConnection_cases next
    exact .inl hi
  | handed | event | swap | started | stopped | detached => exact .inl hi

/-
The steps of the destructor.
-/

theorem Wired.ran_of_forceClose (h : s.Wired) (hclose : s.forceClose i = some s')
    : ∃ x x', Ran s s' i x x' ∧ s'.handler = s.handler := by
  simp only [ClientLoop.forceClose, Option.map_eq_some_iff] at hclose
  obtain ⟨x, hx, rfl⟩ := hclose
  exact ⟨x, _, h.ran_forceClose hx rfl, rfl⟩

theorem Gone.of_unbound (huser : s.inUserCode = true) (hspent : s.spent = true)
    (hnone : ∀ i, s.binds i = false) : s.Gone := by
  refine ⟨?_, hspent, fun i hi => by simp [hnone i] at hi⟩
  unfold inUserCode at huser
  split at huser
  . next hidle => exact .inl hidle
  . next i hclosing => exact .inr ⟨i, hclosing, hnone i⟩
  . cases huser

-- the whole destructor, on the loop thread
theorem Gone.of_destroy {unique : Bool} (h : s.Wired) (huser : s.inUserCode = true)
    (honly : s.bindsOnly s.client.connection_ = true)
    (hspent : (s.client.connection_.isNone || s.spent) = true) (hnext : s.destroy unique = some s')
    : s'.Wired ∧ s'.Gone ∧ s'.client.connection_ = none ∧ ∀ i, s.IsUp i → s'.IsUp i := by
  unfold ClientLoop.destroy at hnext
  split at hnext
  . next i hfound =>
    simp only [Option.bind_eq_some_iff, Option.map_eq_some_iff] at hnext
    obtain ⟨x, hx, t, hclose, rfl⟩ := hnext
    have hspent : s.spent = true := by
      simpa [hfound] using hspent
    have hwired : Wired (s.setConn i { x with detached := true }) := h.detach hx
    have hgone : Gone (s.setConn i { x with detached := true }) := by
      refine .of_unbound huser hspent ?_
      intro j
      rw [Bool.eq_false_iff]
      intro hj
      obtain ⟨y, hy, hattached, hclosing⟩ := binds_eq_true.mp hj
      obtain ⟨_, rfl⟩ | ⟨hne, hy⟩ := cases_of_update hy
      . cases hattached
      . have honlyJ := binds_of_bindsOnly h honly (binds_eq_true.mpr ⟨y, hy, hattached, hclosing⟩)
        rw [hfound, Option.some.injEq] at honlyJ
        exact hne honlyJ.symm
    have hup : ∀ j, s.IsUp j → IsUp (s.setConn i { x with detached := true }) j := by
      rintro j ⟨y, hy, hup⟩
      by_cases heq : j = i
      . subst heq
        rw [hx, Option.some.injEq] at hy
        subst hy
        exact ⟨_, Function.update_self .., hup⟩
      . exact ⟨y, (Function.update_of_ne heq ..).trans hy, hup⟩
    split at hclose
    . obtain ⟨y, y', hran, hhandler⟩ := hwired.ran_of_forceClose hclose
      refine ⟨(hwired.ran hran).release, (hgone.ran hran (.inl hhandler)).release, rfl, ?_⟩
      intro j hj
      have hkept : t.IsUp j := (hup j hj).ran hwired hran (.inl hhandler)
      exact hkept
    . simp only [Option.some.injEq] at hclose
      subst hclose
      exact ⟨hwired.release, hgone.release, rfl, hup⟩
  . next hfound =>
    simp only [Option.map_eq_some_iff] at hnext
    obtain ⟨connector, hstop, rfl⟩ := hnext
    obtain ⟨hkeeps, _, hoff⟩ := h.connector.stop hstop
    have hgone : Gone (s.setConnector connector) := by
      refine .of_unbound huser (spent_of_off hoff) ?_
      intro j
      rw [Bool.eq_false_iff]
      intro hj
      have honlyJ := binds_of_bindsOnly h honly hj
      simp [hfound] at honlyJ
    exact ⟨(h.setConnector hkeeps).release, hgone.release, rfl, fun _ hup => hup⟩

end ClientLoop

namespace ClientThreads

open ClientLoop (Wired Promised Gone Effect Ran IsUp)
open TcpConnection.Race (Caller)

variable {s s' : ClientThreads}

/--
What holds as long as the destructor is safe.
-/
structure Inv (s : ClientThreads) : Prop where
  wired : s.loop.Wired
  late : s.late = false
  alone : s.inClient = true → s.teardown = .running
  storing : ∀ i, s.storing i = true → s.loop.IsUp i
  known : ∀ i, s.loop.client.connection_ = some i ∨ (∃ unique, s.teardown = .found i unique) →
    (s.loop.conns i).isSome = true
  promised : ∀ i, s.teardown.replaces i = true → s.loop.Promised i
  off : s.teardown = .stopping ∨ s.teardown = .returning none → s.loop.client.connector_.connect_ = false
  gone : s.teardown = .destroyed → s.loop.Gone

theorem storing_iff {i : Nat}
    : s.storing i = true ↔ ∃ caller : Caller, caller.stores = true
        ∧ (.conn i caller ∈ s.calls ∨ s.teardown = .forcing i caller) := by
  have hcalls : s.calls.any (Pending.stores i) = true
      ↔ ∃ caller : Caller, caller.stores = true ∧ .conn i caller ∈ s.calls := by
    rw [List.any_eq_true]
    constructor
    . rintro ⟨c, hmem, hstores⟩
      cases c with
      | client c => cases hstores
      | conn j caller =>
        simp only [Pending.stores, Bool.and_eq_true, decide_eq_true_eq] at hstores
        obtain ⟨rfl, hstores⟩ := hstores
        exact ⟨caller, hstores, hmem⟩
    . rintro ⟨caller, hstores, hmem⟩
      exact ⟨_, hmem, by simp [Pending.stores, hstores]⟩
  simp only [storing, Bool.or_eq_true, hcalls, and_or_left, exists_or]
  apply or_congr Iff.rfl
  cases s.teardown with
  | forcing j caller =>
    simp only [Bool.and_eq_true, decide_eq_true_eq, Teardown.forcing.injEq]
    constructor
    . rintro ⟨rfl, hstores⟩
      exact ⟨caller, hstores, rfl, rfl⟩
    . rintro ⟨_, hstores, rfl, rfl⟩
      exact ⟨rfl, hstores⟩
  | _ => simp

theorem Started.inv (h : s.Started) : s.Inv := by
  obtain ⟨hloop, hcalls, hteardown, hlate⟩ := h
  refine ⟨hloop.wired, hlate, fun _ => hteardown, ?_, ?_, ?_, by simp [hteardown], by simp [hteardown]⟩
  . simp [storing_iff, hcalls, hteardown]
  . obtain ⟨⟨_, hclient⟩, _⟩ := hloop
    simp [hteardown, hclient, new]
  . simp [hteardown, Teardown.replaces]

theorem Inv.loop {a : Label} {loop : ClientLoop} (h : s.Inv) (hsafe : s.safe (.loop a) = true)
    (hclient : a.ofClient = true → s.teardown = .running) (hstep : ClientLoop.system.step s.loop a = some loop)
    : Inv { s with loop := loop, late := s.late || s.teardown = .destroyed && s.loop.usesClient a } := by
  have heffect := h.wired.effect hstep
  have huser : s.teardown ≠ .running → a.ofClient = false := by
    intro hrunning
    rw [Bool.eq_false_iff]
    exact fun ha => hrunning (hclient ha)
  simp only [safe, Bool.and_eq_true, Option.all_eq_true, Bool.not_eq_true'] at hsafe
  obtain ⟨hstored, hsafe⟩ := hsafe
  refine ⟨h.wired.step hstep, ?_, h.alone, ?_, ?_, fun i hi => (h.promised i hi).effect h.wired heffect, ?_, ?_⟩
  . by_cases hgone : s.teardown = .destroyed
    . simp [h.late, (h.gone hgone).usesClient hstep]
    . simp [h.late, hgone]
  . intro i hi
    refine (h.storing i hi).effect h.wired heffect ?_
    intro hcloses
    have hnot := hstored i hcloses
    rw [show s.storing i = true from hi] at hnot
    cases hnot
  . rintro i (hconnection | hfound)
    . obtain hold | hnew := ClientLoop.connection_of_effect heffect hconnection
      . exact ClientLoop.isSome_of_effect heffect (h.known i (.inl hold))
      . exact hnew
    . exact ClientLoop.isSome_of_effect heffect (h.known i (.inr hfound))
  . intro hstopped
    have hrestarts : s.loop.restarts a = false := by
      obtain hteardown | hteardown := hstopped
      . have hteardown : s.teardown = .stopping := hteardown
        simpa [hteardown] using hsafe
      . have hteardown : s.teardown = .returning none := hteardown
        simpa [hteardown] using hsafe
    refine ClientLoop.off_of_effect (h.off hstopped) (huser ?_) hrestarts heffect
    obtain hteardown | hteardown := hstopped
    . exact fun hrunning => by simp [hrunning] at hteardown
    . exact fun hrunning => by simp [hrunning] at hteardown
  . intro hgone
    have hteardown : s.teardown = .destroyed := hgone
    refine (h.gone hgone).effect h.wired (huser (by simp [hteardown])) ?_ heffect
    intro i hcloses
    simpa [hteardown, hcloses] using hsafe

/-
The calls of other threads, and of the destructor.
-/

-- a function of a connection that does not close it
theorem Inv.ran {loop : ClientLoop} {i : Nat} {x x' : Made} (h : s.Inv) (hran : Ran s.loop loop i x x')
    (hhandler : loop.handler = s.loop.handler) : Inv { s with loop := loop } := by
  have hconnection : loop.client.connection_ = s.loop.client.connection_ := by
    obtain heq | heq := hran.client <;> rw [heq]
  refine ⟨h.wired.ran hran, h.late, h.alone, ?_, ?_, fun j hj => (h.promised j hj).ran hran, ?_, ?_⟩
  . exact fun j hj => (h.storing j hj).ran h.wired hran (.inl hhandler)
  . intro j hj
    dsimp only at hj ⊢
    rw [hconnection] at hj
    rw [hran.conns]
    exact ClientLoop.isSome_update (h.known j hj)
  . intro hstopped
    dsimp only
    rw [hran.connector]
    exact h.off hstopped
  . exact fun hgone => (h.gone hgone).ran hran (.inl hhandler)

-- a step that leaves the connections alone, with the destructor not yet so far that it counts on the rest
theorem Inv.setLoop {loop : ClientLoop} (h : s.Inv) (hwired : loop.Wired) (hconns : loop.conns = s.loop.conns)
    (hconnection : loop.client.connection_ = s.loop.client.connection_) (hreplaces : ∀ i, s.teardown.replaces i = false)
    (hoff : s.teardown = .stopping ∨ s.teardown = .returning none → loop.client.connector_.connect_ = false)
    (hgone : s.teardown ≠ .destroyed) : Inv { s with loop := loop } := by
  refine ⟨hwired, h.late, h.alone, ?_, ?_, ?_, hoff, fun heq => absurd heq hgone⟩
  . intro i hi
    obtain ⟨x, hx, hup⟩ := h.storing i hi
    exact ⟨x, (congrFun hconns i).trans hx, hup⟩
  . intro i hi
    dsimp only at hi ⊢
    rw [hconnection] at hi
    rw [hconns]
    exact h.known i hi
  . intro i hi
    exact absurd ((hreplaces i).symm.trans hi) Bool.false_ne_true

theorem Inv.setCalls {calls : List Pending} (h : s.Inv)
    (hclient : ∀ c, .client c ∈ calls → s.teardown = .running)
    (hconn : ∀ i caller, .conn i caller ∈ calls → caller.stores = true → s.loop.IsUp i)
    : Inv { s with calls := calls } := by
  refine ⟨h.wired, h.late, ?_, ?_, h.known, h.promised, h.off, h.gone⟩
  . intro hin
    obtain ⟨c, hmem, hc⟩ := List.any_eq_true.mp hin
    cases c with
    | client c => exact hclient c hmem
    | conn i caller => cases hc
  . intro i hi
    obtain ⟨caller, hstores, hmem | hforcing⟩ := storing_iff.mp hi
    . exact hconn i caller hmem hstores
    . exact h.storing i (storing_iff.mpr ⟨caller, hstores, .inr hforcing⟩)

theorem Inv.isUp {i : Nat} {caller : Caller} (h : s.Inv) (hmem : .conn i caller ∈ s.calls)
    (hstores : caller.stores = true) : s.loop.IsUp i :=
  h.storing i (storing_iff.mpr ⟨caller, hstores, .inl hmem⟩)

theorem Inv.running {c : ClientCall} (h : s.Inv) (hmem : .client c ∈ s.calls) : s.teardown = .running :=
  h.alone (List.any_eq_true.mpr ⟨_, hmem, rfl⟩)

theorem Inv.behind (h : s.Inv) (hteardown : s.teardown ≠ .running) : s.inClient = false := by
  rw [Bool.eq_false_iff]
  exact fun hin => hteardown (h.alone hin)

theorem eq_of_mem_rest {i j : Nat} {caller caller' : Caller} (h : .conn j caller' ∈ (Pending.rest i caller).toList)
    : j = i ∧ caller' = caller := by
  simp only [Pending.rest, Option.mem_toList] at h
  split at h
  . cases h
  . simpa using h.symm

theorem not_client_of_mem_rest {i : Nat} {caller : Caller} {c : ClientCall}
    : .client c ∉ (Pending.rest i caller).toList := by
  unfold Pending.rest
  split <;> simp

theorem Inv.advance {k : Nat} {c : Pending} {loop : ClientLoop} {rest : Option Pending} (h : s.Inv)
    (hmem : c ∈ s.calls) (hadvance : s.loop.advance c = some (loop, rest))
    : Inv { s with loop := loop, calls := s.calls.eraseIdx k ++ rest.toList } := by
  have hold : ∀ c', c' ∈ s.calls.eraseIdx k → c' ∈ s.calls := fun c' hc' => List.mem_of_mem_eraseIdx hc'
  cases c with
  | client c =>
    obtain ⟨hwired, hconns, hconnection, hrest⟩ := h.wired.advanceClient hadvance
    have hrunning := h.running hmem
    have hloop : Inv { s with loop := loop } := by
      refine h.setLoop hwired hconns hconnection ?_ ?_ ?_ <;> simp [hrunning, Teardown.replaces]
    refine hloop.setCalls (fun _ _ => hrunning) ?_
    intro i caller hin hstores
    rw [List.mem_append] at hin
    obtain hin | hin := hin
    . exact hloop.isUp (hold _ hin) hstores
    . obtain ⟨x, hx, hup⟩ := (hrest i caller (Option.mem_toList.mp hin)).2 hstores
      exact ⟨x, (congrFun hconns i).trans hx, hup⟩
  | conn i caller =>
    simp only [ClientLoop.advance, Option.map_eq_some_iff, Prod.mk.injEq] at hadvance
    obtain ⟨⟨_, caller'⟩, hadvance, rfl, rfl⟩ := hadvance
    obtain ⟨x, x', hran, hhandler, hloads⟩ := h.wired.ran_advanceConn (h.isUp hmem) hadvance
    have hloop := h.ran hran hhandler
    refine hloop.setCalls ?_ ?_
    . intro c hin
      rw [List.mem_append] at hin
      obtain hin | hin := hin
      . exact h.running (hold _ hin)
      . exact absurd hin not_client_of_mem_rest
    . intro j caller hin hstores
      rw [List.mem_append] at hin
      obtain hin | hin := hin
      . exact hloop.isUp (hold _ hin) hstores
      . obtain ⟨rfl, rfl⟩ := eq_of_mem_rest hin
        exact hloads hstores

-- the destructor goes on, with what it has queued, or in its call of `forceClose`
theorem Inv.setTeardown {teardown : Teardown} (h : s.Inv) (hbehind : s.inClient = false)
    (hstoring : ∀ i caller, teardown = .forcing i caller → caller.stores = true → s.loop.IsUp i)
    (hknown : ∀ i unique, teardown = .found i unique → (s.loop.conns i).isSome = true)
    (hpromised : ∀ i, teardown.replaces i = true → s.loop.Promised i)
    (hoff : teardown = .stopping ∨ teardown = .returning none → s.loop.client.connector_.connect_ = false)
    (hgone : teardown ≠ .destroyed) : Inv { s with teardown := teardown } := by
  refine ⟨h.wired, h.late, ?_, ?_, ?_, hpromised, hoff, fun heq => absurd heq hgone⟩
  . intro hin
    rw [show s.inClient = true from hin] at hbehind
    cases hbehind
  . intro i hi
    obtain ⟨caller, hstores, hmem | hforcing⟩ := storing_iff.mp hi
    . exact h.isUp hmem hstores
    . exact hstoring i caller hforcing hstores
  . rintro i (hconnection | ⟨unique, hfound⟩)
    . exact h.known i (.inl hconnection)
    . exact hknown i unique hfound

theorem Inv.setCloseCallback {i : Nat} {unique : Bool} (h : s.Inv) (hteardown : s.teardown = .found i unique)
    : Inv { s with loop := s.loop.queueInLoop false (.setCloseCallback i), teardown := .replaced i unique } := by
  obtain ⟨x, hx⟩ := Option.isSome_iff_exists.mp (h.known i (.inr ⟨unique, hteardown⟩))
  have hqueued : Inv { s with loop := s.loop.queueInLoop false (.setCloseCallback i) } := by
    refine h.setLoop (h.wired.queueInLoop (by simp)) rfl rfl ?_ ?_ ?_ <;> simp [hteardown, Teardown.replaces]
  refine hqueued.setTeardown (h.behind (by simp [hteardown])) (by simp) (by simp) ?_ (by simp) (by simp)
  intro j hj
  simp only [Teardown.replaces, decide_eq_true_eq] at hj
  subst hj
  refine ⟨x, hx, .inr ?_⟩
  simp [ClientLoop.queueInLoop, queueOf]

theorem Inv.testUnique {i : Nat} {unique : Bool} {teardown : Teardown} (h : s.Inv)
    (hteardown : s.teardown = .replaced i unique)
    (hgoes : teardown = .returning (some i)
      ∨ ∃ caller, teardown = .forcing i caller ∧ (caller.stores = true → s.loop.IsUp i))
    : Inv { s with teardown := teardown } := by
  have hpromised : s.loop.Promised i :=
    h.promised i (by simp [hteardown, Teardown.replaces])
  have hbehind := h.behind (by simp [hteardown])
  obtain rfl | ⟨caller, rfl, hup⟩ := hgoes
  . refine h.setTeardown hbehind (by simp) (by simp) ?_ (by simp) (by simp)
    intro j hj
    simp only [Teardown.replaces, decide_eq_true_eq, Option.some.injEq] at hj
    exact hj ▸ hpromised
  . refine h.setTeardown hbehind ?_ (by simp) ?_ (by simp) (by simp)
    . intro j caller' heq
      simp only [Teardown.forcing.injEq] at heq
      obtain ⟨rfl, rfl⟩ := heq
      exact hup
    . intro j hj
      simp only [Teardown.replaces, decide_eq_true_eq] at hj
      exact hj ▸ hpromised

theorem Inv.forceClose {i : Nat} {caller caller' : Caller} {loop : ClientLoop} (h : s.Inv)
    (hteardown : s.teardown = .forcing i caller) (hadvance : s.loop.advanceConn i caller = some (loop, caller'))
    : Inv { s with
        loop := loop
        teardown := if caller' = .idle then .returning (some i) else .forcing i caller' } := by
  have hup : caller.stores = true → s.loop.IsUp i :=
    fun hstores => h.storing i (storing_iff.mpr ⟨caller, hstores, .inr hteardown⟩)
  obtain ⟨x, x', hran, hhandler, hloads⟩ := h.wired.ran_advanceConn hup hadvance
  have hloop := h.ran hran hhandler
  refine hloop.setTeardown (h.behind (by simp [hteardown])) ?_ ?_ ?_ ?_ ?_
  . intro j caller'' heq hstores
    split at heq
    . cases heq
    . simp only [Teardown.forcing.injEq] at heq
      obtain ⟨rfl, rfl⟩ := heq
      exact hloads hstores
  . intro j unique heq
    split at heq <;> cases heq
  . intro j hj
    refine hloop.promised j ?_
    dsimp only at hj ⊢
    rw [hteardown]
    split at hj
    . simpa [Teardown.replaces] using hj
    . exact hj
  . split <;> simp
  . split <;> simp

-- the destructor returns
theorem Inv.destroyed {loop : ClientLoop} (h : s.Inv) (hbehind : s.inClient = false) (hwired : loop.Wired)
    (hgone : loop.Gone) (hnone : loop.client.connection_ = none) (hup : ∀ i, s.loop.IsUp i → loop.IsUp i)
    : Inv { s with loop := loop, teardown := .destroyed } := by
  refine ⟨hwired, h.late, ?_, ?_, by simp [hnone], by simp [Teardown.replaces], by simp, fun _ => hgone⟩
  . intro hin
    rw [show s.inClient = true from hin] at hbehind
    cases hbehind
  . intro i hi
    obtain ⟨caller, hstores, hmem | hforcing⟩ := storing_iff.mp hi
    . exact hup i (h.isUp hmem hstores)
    . cases hforcing

theorem Inv.endDestroy {found : Option Nat} (h : s.Inv) (hsafe : s.safe .endDestroy = true)
    (hteardown : s.teardown = .returning found) : Inv { s with loop := s.loop.release, teardown := .destroyed } := by
  simp only [safe, hteardown, Bool.and_eq_true] at hsafe
  obtain ⟨⟨houtside, honly⟩, hspent⟩ := hsafe
  have hspent : s.loop.spent = true := by
    cases found with
    | none => exact ClientLoop.spent_of_off (h.off (.inr hteardown))
    | some i => simpa using hspent
  have hgone : s.loop.Gone :=
    .of_found h.wired houtside honly hspent fun i hi => h.promised i (by simp [hteardown, Teardown.replaces, hi])
  exact h.destroyed (h.behind (by simp [hteardown])) h.wired.release hgone.release rfl fun _ hup => hup

theorem Inv.next {a : ThreadLabel} (h : s.Inv) (hsafe : s.safe a = true) (henabled : s.enabled a = true)
    (hnext : s.next a = some s') : s'.Inv := by
  cases a with
  | loop a =>
    simp only [enabled, Bool.and_eq_true, Bool.or_eq_true, Bool.not_eq_true', decide_eq_true_eq] at henabled
    simp only [ClientThreads.next, Option.map_eq_some_iff] at hnext
    obtain ⟨loop, hloop, rfl⟩ := hnext
    refine h.loop hsafe ?_ (LTS.guarded_step.mpr ⟨henabled.1, hloop⟩)
    intro ha
    exact henabled.2.resolve_left (by simp [ha])
  | call c =>
    simp only [enabled, Bool.and_eq_true, decide_eq_true_eq] at henabled
    simp only [ClientThreads.next, Option.some.injEq] at hnext
    subst hnext
    refine h.setCalls (fun _ _ => henabled.2) ?_
    intro i caller hmem hstores
    exact h.isUp (by simpa using hmem) hstores
  | callConn i c =>
    simp only [ClientThreads.next, Option.map_eq_some_iff] at hnext
    obtain ⟨caller, hload, rfl⟩ := hnext
    refine h.setCalls ?_ ?_
    . intro c hmem
      rw [List.mem_append] at hmem
      exact h.running (hmem.resolve_right not_client_of_mem_rest)
    . intro j caller' hmem hstores
      rw [List.mem_append] at hmem
      obtain hmem | hmem := hmem
      . exact h.isUp hmem hstores
      . obtain ⟨rfl, rfl⟩ := eq_of_mem_rest hmem
        exact ClientLoop.isUp_of_load hload hstores
  | advance k =>
    simp only [ClientThreads.next, Option.bind_eq_some_iff, Option.map_eq_some_iff] at hnext
    obtain ⟨c, hc, ⟨loop, rest⟩, hadvance, rfl⟩ := hnext
    exact h.advance (List.mem_of_getElem? hc) hadvance
  | destroy others =>
    simp only [enabled, Bool.and_eq_true, decide_eq_true_eq, Bool.not_eq_true'] at henabled
    simp only [safe, Bool.and_eq_true] at hsafe
    simp only [ClientThreads.next, Option.map_eq_some_iff] at hnext
    obtain ⟨loop, hdestroy, rfl⟩ := hnext
    obtain ⟨hwired, hgone, hnone, hup⟩ := Gone.of_destroy h.wired henabled.2 hsafe.1 hsafe.2 hdestroy
    exact h.destroyed henabled.1.2 hwired hgone hnone hup
  | read others =>
    simp only [enabled, Bool.and_eq_true, Bool.not_eq_true'] at henabled
    simp only [ClientThreads.next] at hnext
    split at hnext
    . next i hfound =>
      simp only [Option.some.injEq] at hnext
      subst hnext
      refine h.setTeardown henabled.2 (by simp) ?_ (by simp [Teardown.replaces]) (by simp) (by simp)
      intro j unique heq
      simp only [Teardown.found.injEq] at heq
      exact h.known j (.inl (heq.1 ▸ hfound))
    . simp only [Option.some.injEq] at hnext
      subst hnext
      exact h.setTeardown henabled.2 (by simp) (by simp) (by simp [Teardown.replaces]) (by simp) (by simp)
  | setCloseCallback =>
    simp only [ClientThreads.next] at hnext
    split at hnext
    . next i unique hteardown =>
      simp only [Option.some.injEq] at hnext
      subst hnext
      exact h.setCloseCallback hteardown
    . cases hnext
  | testUnique =>
    simp only [ClientThreads.next] at hnext
    split at hnext
    . next i unique hteardown =>
      split at hnext
      . simp only [Option.map_eq_some_iff] at hnext
        obtain ⟨caller, hload, rfl⟩ := hnext
        exact h.testUnique hteardown (.inr ⟨caller, rfl, ClientLoop.isUp_of_load hload⟩)
      . simp only [Option.some.injEq] at hnext
        subst hnext
        exact h.testUnique hteardown (.inl rfl)
    . cases hnext
  | forceClose =>
    simp only [ClientThreads.next] at hnext
    split at hnext
    . next i caller hteardown =>
      simp only [Option.map_eq_some_iff] at hnext
      obtain ⟨⟨loop, caller'⟩, hadvance, rfl⟩ := hnext
      exact h.forceClose hteardown hadvance
    . cases hnext
  | stop =>
    simp only [ClientThreads.next] at hnext
    split at hnext
    . next hteardown =>
      simp only [Option.some.injEq] at hnext
      subst hnext
      have hoff : Inv { s with
          loop := s.loop.setConnector { s.loop.client.connector_ with connect_ := false } } := by
        refine h.setLoop (h.wired.setConnect false) rfl rfl ?_ ?_ ?_ <;> simp [hteardown, Teardown.replaces]
      refine hoff.setTeardown (h.behind (by simp [hteardown])) (by simp) (by simp) (by simp [Teardown.replaces]) ?_
        (by simp)
      exact fun _ => rfl
    . cases hnext
  | stopInLoop =>
    simp only [ClientThreads.next] at hnext
    split at hnext
    . next hteardown =>
      simp only [Option.some.injEq] at hnext
      subst hnext
      have hqueued : Inv { s with loop := s.loop.queueInLoop false .stopInLoop } := by
        refine h.setLoop (h.wired.queueInLoop (by simp)) rfl rfl ?_ h.off ?_ <;> simp [hteardown, Teardown.replaces]
      refine hqueued.setTeardown (h.behind (by simp [hteardown])) (by simp) (by simp) (by simp [Teardown.replaces]) ?_
        (by simp)
      exact fun _ => h.off (.inl hteardown)
    . cases hnext
  | endDestroy =>
    simp only [ClientThreads.next] at hnext
    split at hnext
    . next found hteardown =>
      simp only [Option.some.injEq] at hnext
      subst hnext
      exact h.endDestroy hsafe hteardown
    . cases hnext

def started : ClientThreads where
  loop := .started
  calls := []
  teardown := .running
  late := false

theorem started_init : started.Started :=
  ⟨ClientLoop.started_init, rfl, rfl, rfl⟩

end ClientThreads

end TcpClient

end MyMuduo
