import MyMuduo.Connector.Events

/-!
This module contains that a connector hands over no socket twice, and which of its steps put an attempt in
flight.
-/

namespace MyMuduo

namespace Connector

/--
The socket of an attempt in flight has not been handed over.
-/
structure Fresh (s : Connector) : Prop extends s.Attached where
  handed : ∀ fd ∈ s.handed, fd < s.sockets
  inFlight : s.state_ = .kConnecting → ∀ c, s.channel_ = some c → c.fd ∉ s.handed

/--
A step that hands over no socket. If it puts an attempt in flight, `starts` holds.
-/
structure Keeps (starts : Prop) (s s' : Connector) : Prop where
  fresh : s'.Fresh
  handed : s'.handed = s.handed
  state : s'.state_ = .kConnecting → s.state_ = .kConnecting ∨ starts

variable {s s' : Connector} {savedErrno : Nat}

theorem Fresh.of_state_ne (h : s.Fresh) (hattached : s'.Attached) (hstate : s'.state_ ≠ .kConnecting)
    (hhanded : s'.handed = s.handed) (hsockets : s.sockets ≤ s'.sockets) : s'.Fresh := by
  refine ⟨hattached, ?_, fun hconnecting => absurd hconnecting hstate⟩
  rw [hhanded]
  exact fun fd hmem => Nat.lt_of_lt_of_le (h.handed fd hmem) hsockets

theorem handed_retry (s : Connector) (sockfd : Fd) : (s.retry sockfd).handed = s.handed := by
  unfold retry
  dsimp only
  split <;> rfl

theorem connect_retry (s : Connector) (sockfd : Fd) : (s.retry sockfd).connect_ = s.connect_ := by
  unfold retry
  dsimp only
  split <;> rfl

theorem Fresh.connect (h : s.Fresh) (heq : s.connect savedErrno = some s')
    : Keeps (outcome savedErrno = .connecting) s s' := by
  have hattached := h.toAttached.connect heq
  have hmade : ∀ fd ∈ s.handed, fd < s.sockets + 1 := fun fd hmem => Nat.lt_succ_of_lt (h.handed fd hmem)
  unfold Connector.connect at heq
  dsimp only at heq
  split at heq
  . next hconnecting =>
    cases hepoll : (s.poller.epoll s.sockets).isSome with
    | true => simp [connecting_eq_none (s := { s with sockets := s.sockets + 1 }) hepoll] at heq
    | false =>
      have hinFlight := connecting_eq_some (s := { s with sockets := s.sockets + 1 }) hepoll
      rw [heq, Option.some.injEq] at hinFlight
      subst hinFlight
      refine ⟨⟨hattached, hmade, ?_⟩, rfl, fun _ => .inr hconnecting⟩
      rintro _ c ⟨rfl⟩ hmem
      exact Nat.lt_irrefl _ (h.handed _ hmem)
  . simp only [Option.some.injEq] at heq
    subst heq
    have hstate : ({ s with sockets := s.sockets + 1 }.retry s.sockets).state_ ≠ .kConnecting := by
      simp [state_retry]
    refine ⟨h.of_state_ne hattached hstate (handed_retry _ _) ?_, handed_retry _ _, fun hnot => absurd hnot hstate⟩
    rw [sockets_retry]
    exact Nat.le_succ _
  . simp only [Option.some.injEq] at heq
    subst heq
    exact ⟨⟨hattached, hmade, h.inFlight⟩, rfl, .inl⟩

theorem Fresh.startInLoop (h : s.Fresh) (heq : s.startInLoop savedErrno = some s')
    : Keeps (s.connect_ = true ∧ outcome savedErrno = .connecting) s s' := by
  unfold Connector.startInLoop at heq
  split at heq
  . next hconnect =>
    obtain ⟨hfresh, hhanded, hstate⟩ := h.connect heq
    exact ⟨hfresh, hhanded, fun hconnecting => (hstate hconnecting).imp id fun hstarts => ⟨hconnect, hstarts⟩⟩
  . simp only [Option.some.injEq] at heq
    subst heq
    exact ⟨h, rfl, .inl⟩

theorem Fresh.start (h : s.Fresh) (heq : s.start savedErrno = some s')
    : Keeps (outcome savedErrno = .connecting) s s' := by
  have hon : { s with connect_ := true }.Fresh := ⟨{ h.toAttached with }, h.handed, h.inFlight⟩
  obtain ⟨hfresh, hhanded, hstate⟩ := hon.startInLoop heq
  exact ⟨hfresh, hhanded, fun hconnecting => (hstate hconnecting).imp id And.right⟩

theorem Fresh.restart (h : s.Fresh) (heq : s.restart savedErrno = some s')
    : Keeps (outcome savedErrno = .connecting) s s' := by
  have hdisconnected : { s.setState .kDisconnected with connect_ := true }.Fresh := by
    have hstate : ({ s.setState .kDisconnected with connect_ := true }).state_ ≠ .kConnecting := by
      simp [setState]
    exact h.of_state_ne (.of_state_ne hstate h.closed h.made) hstate rfl (Nat.le_refl _)
  obtain ⟨hfresh, hhanded, hstate⟩ := hdisconnected.startInLoop heq
  refine ⟨hfresh, hhanded, fun hconnecting => ?_⟩
  obtain hold | hstarts := hstate hconnecting
  . cases hold
  . exact .inr hstarts.2

theorem Fresh.timer (h : s.Fresh) {i : Nat} (heq : s.next (.timer i savedErrno) = some s')
    : Keeps (s.connect_ = true ∧ outcome savedErrno = .connecting) s s' := by
  have hfired : { s with timers := s.timers.eraseIdx i }.Fresh := ⟨{ h.toAttached with }, h.handed, h.inFlight⟩
  obtain ⟨hfresh, hhanded, hstate⟩ := hfired.startInLoop heq
  exact ⟨hfresh, hhanded, hstate⟩

theorem Fresh.resetChannel (h : s.Fresh) (heq : s.next .resetChannel = some s') : Keeps False s s' := by
  simp only [next, Option.some.injEq] at heq
  subst heq
  refine ⟨⟨⟨h.closed, ?_, ?_, ?_, ?_, ?_⟩, h.handed, ?_⟩, rfl, .inl⟩ <;> simp [Connector.resetChannel]

theorem Fresh.stopInLoop (h : s.Fresh) (heq : s.stopInLoop = some s')
    : Keeps False s s' ∧ s'.state_ ≠ .kConnecting ∧ s'.connect_ = s.connect_ := by
  have hattached := h.toAttached.stopInLoop heq
  unfold Connector.stopInLoop at heq
  split at heq
  . next hstate =>
    cases hchannel : s.channel_ with
    | none => simp [removeAndResetChannel, setState, hchannel] at heq
    | some c =>
      rw [removeAndResetChannel_eq_some (s := s.setState .kDisconnected) hchannel
        (h.index hstate c hchannel) (h.epoll hstate c hchannel), Option.map_some, Option.some.injEq] at heq
      subst heq
      have hdisconnected : ∀ t : Connector, (t.retry c.fd).state_ ≠ .kConnecting := by
        intro t
        simp [state_retry]
      refine ⟨⟨h.of_state_ne hattached (hdisconnected _) (handed_retry _ _) ?_, handed_retry _ _,
        fun hconnecting => absurd hconnecting (hdisconnected _)⟩, hdisconnected _, connect_retry _ _⟩
      rw [sockets_retry]
      exact Nat.le_refl _
  . next hstate =>
    simp only [Option.some.injEq] at heq
    subst heq
    exact ⟨⟨h, rfl, .inl⟩, hstate, rfl⟩

theorem Fresh.stop (h : s.Fresh) (heq : s.stop = some s')
    : Keeps False s s' ∧ s'.state_ ≠ .kConnecting ∧ s'.connect_ = false := by
  have hoff : { s with connect_ := false }.Fresh := ⟨{ h.toAttached with }, h.handed, h.inFlight⟩
  obtain ⟨⟨hfresh, hhanded, hstate⟩, hnot, hconnect⟩ := hoff.stopInLoop heq
  exact ⟨⟨hfresh, hhanded, hstate⟩, hnot, hconnect⟩

theorem Fresh.handleError (h : s.Fresh) (heq : s.handleError = some s') : s' = s := by
  by_cases hstate : s.state_ = .kConnecting
  . cases hchannel : s.channel_ with
    | none => simp [Connector.handleError, removeAndResetChannel, hstate, hchannel] at heq
    | some c => simp [handleError_eq_none h.toAttached hstate hchannel] at heq
  . simp only [Connector.handleError, if_neg hstate, Option.some.injEq] at heq
    exact heq.symm

/--
`handleWrite` hands over the socket of the attempt in flight, or none.
-/
theorem Fresh.handleWrite (h : s.Fresh) {err : Nat} {isSelfConnect : Bool}
    (heq : s.handleWrite err isSelfConnect = some s')
    : Keeps False s s'
        ∨ s.state_ = .kConnecting ∧ s.connect_ = true ∧ s'.Fresh ∧ s'.state_ = .kConnected
          ∧ ∃ sockfd, sockfd ∉ s.handed ∧ s'.handed = s.handed ++ [sockfd] := by
  have hattached := h.toAttached.handleWrite heq
  by_cases hstate : s.state_ = .kConnecting
  . cases hchannel : s.channel_ with
    | none => simp [Connector.handleWrite, removeAndResetChannel, hstate, hchannel] at heq
    | some c =>
      rw [handleWrite_eq_some h.toAttached hstate hchannel, Option.some.injEq] at heq
      subst heq
      have hretry : ((s.released c).retry c.fd).state_ ≠ .kConnecting := by
        simp [state_retry]
      split
      . next hfailed =>
        rw [if_pos hfailed] at hattached
        refine .inl ⟨h.of_state_ne hattached hretry (handed_retry _ _) ?_, handed_retry _ _,
          fun hconnecting => absurd hconnecting hretry⟩
        rw [sockets_retry]
        exact Nat.le_refl _
      . next hfailed =>
        rw [if_neg hfailed] at hattached
        split
        . next hconnect =>
          rw [if_pos hconnect] at hattached
          refine .inr ⟨hstate, hconnect, ⟨hattached, ?_, ?_⟩, rfl, c.fd, h.inFlight hstate c hchannel, rfl⟩
          . intro fd
            exact lt_of_mem_append_singleton h.handed (h.made c hchannel)
          . simp [setState]
        . next hconnect =>
          rw [if_neg hconnect] at hattached
          have hconnected : (((s.released c).setState .kConnected).close c.fd).state_ ≠ .kConnecting := by
            simp [setState, close]
          exact .inl ⟨h.of_state_ne hattached hconnected rfl (Nat.le_refl _), rfl,
            fun hconnecting => absurd hconnecting hconnected⟩
  . simp only [Connector.handleWrite, if_neg hstate, Option.some.injEq] at heq
    subst heq
    exact .inl ⟨h, rfl, .inl⟩

theorem fresh_new : new.Fresh := by
  refine ⟨⟨?_, ?_, ?_, ?_, ?_, ?_⟩, ?_, ?_⟩ <;> simp [new]

/-
A connector that hands over no socket any more, unless it is started.
-/

/--
`connect_` is off, or no attempt is in flight and no retry waits.
-/
def spent (s : Connector) : Bool :=
  !s.connect_ || (s.state_ ≠ .kConnecting && s.timers.isEmpty)

theorem spent_iff : s.spent = true ↔ s.connect_ = false ∨ s.state_ ≠ .kConnecting ∧ s.timers = [] := by
  simp [spent]

theorem spent_of_off (h : s.connect_ = false) : s.spent = true :=
  spent_iff.mpr (.inl h)

theorem connect_connect (heq : s.connect savedErrno = some s') : s'.connect_ = s.connect_ := by
  unfold Connector.connect at heq
  dsimp only at heq
  split at heq
  . simp only [connecting, Option.map_eq_some_iff] at heq
    obtain ⟨_, _, rfl⟩ := heq
    rfl
  . simp only [Option.some.injEq] at heq
    subst heq
    exact connect_retry _ _
  . simp only [Option.some.injEq] at heq
    subst heq
    rfl

theorem startInLoop_off (hoff : s.connect_ = false) (heq : s.startInLoop savedErrno = some s') : s' = s := by
  simp only [Connector.startInLoop, hoff, Bool.false_eq_true, if_false, Option.some.injEq] at heq
  exact heq.symm

theorem connect_startInLoop (heq : s.startInLoop savedErrno = some s') : s'.connect_ = s.connect_ := by
  cases hconnect : s.connect_ with
  | false => rw [startInLoop_off hconnect heq, hconnect]
  | true =>
    simp only [Connector.startInLoop, hconnect, if_true] at heq
    exact (connect_connect heq).trans hconnect

theorem connect_handleWrite {err : Nat} {isSelfConnect : Bool} (heq : s.handleWrite err isSelfConnect = some s')
    : s'.connect_ = s.connect_ := by
  unfold Connector.handleWrite at heq
  split at heq
  . simp only [removeAndResetChannel, Option.map_eq_some_iff, Option.bind_eq_some_iff] at heq
    obtain ⟨_, ⟨_, _, _, _, _, _, rfl⟩, rfl⟩ := heq
    dsimp only
    split
    . exact connect_retry _ _
    . split
      . exact connect_retry _ _
      . dsimp only [setState]
        cases hconnect : s.connect_ <;> simp [close]
  . simp only [Option.some.injEq] at heq
    rw [heq]

-- what holds of `connect_` and of `spent` behind a step that neither starts nor stops the connector
theorem spent_timer {i : Nat} (hi : i < s.timers.length) (heq : s.next (.timer i savedErrno) = some s')
    : s'.connect_ = s.connect_ ∧ (s.spent = true → s'.spent = true) := by
  have hconnect : s'.connect_ = s.connect_ :=
    connect_startInLoop (s := { s with timers := s.timers.eraseIdx i }) heq
  refine ⟨hconnect, fun hspent => ?_⟩
  obtain hoff | ⟨_, hempty⟩ := spent_iff.mp hspent
  . exact spent_of_off (hconnect.trans hoff)
  . simp [hempty] at hi

theorem spent_resetChannel (heq : s.next .resetChannel = some s')
    : s'.connect_ = s.connect_ ∧ (s.spent = true → s'.spent = true) := by
  simp only [next, Option.some.injEq] at heq
  subst heq
  exact ⟨rfl, id⟩

theorem spent_of_connecting (hconnect : s'.connect_ = s.connect_) (hidle : s.state_ ≠ .kConnecting → s' = s)
    : s'.connect_ = s.connect_ ∧ (s.spent = true → s'.spent = true) := by
  refine ⟨hconnect, fun hspent => ?_⟩
  obtain hoff | ⟨hstate, _⟩ := spent_iff.mp hspent
  . exact spent_of_off (hconnect.trans hoff)
  . rw [hidle hstate]
    exact hspent

theorem spent_handleWrite {err : Nat} {isSelfConnect : Bool} (heq : s.handleWrite err isSelfConnect = some s')
    : s'.connect_ = s.connect_ ∧ (s.spent = true → s'.spent = true) := by
  refine spent_of_connecting (connect_handleWrite heq) ?_
  intro hstate
  simp only [Connector.handleWrite, if_neg hstate, Option.some.injEq] at heq
  exact heq.symm

theorem Fresh.spent_stopInLoop (h : s.Fresh) (heq : s.stopInLoop = some s')
    : s'.connect_ = s.connect_ ∧ (s.spent = true → s'.spent = true) := by
  refine spent_of_connecting (h.stopInLoop heq).2.2 ?_
  intro hstate
  simp only [Connector.stopInLoop, if_neg hstate, Option.some.injEq] at heq
  exact heq.symm

end Connector

end MyMuduo
