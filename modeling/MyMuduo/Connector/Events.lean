import MyMuduo.Connector.Lifecycle

/-!
This module contains what an event on the connector's channel does to a failed attempt.
-/

namespace MyMuduo

namespace Connector

-- the channel and its socket, in every run
structure Attached (s : Connector) : Prop where
  closed : ∀ fd ∈ s.closed, fd < s.sockets
  made : ∀ c, s.channel_ = some c → c.fd < s.sockets
  index : s.state_ = .kConnecting → ∀ c, s.channel_ = some c → c.index = .kAdded
  epoll : s.state_ = .kConnecting → ∀ c, s.channel_ = some c → (s.poller.epoll c.fd).isSome = true
  callbacks : s.state_ = .kConnecting → ∀ c, s.channel_ = some c → c.callbacks = [.write, .error]
  open_ : s.state_ = .kConnecting → ∀ c, s.channel_ = some c → c.fd ∉ s.closed

-- once the state is another one, only the numbers matter
theorem Attached.of_state_ne {s : Connector} (hstate : s.state_ ≠ .kConnecting)
    (hclosed : ∀ fd ∈ s.closed, fd < s.sockets) (hmade : ∀ c, s.channel_ = some c → c.fd < s.sockets)
    : s.Attached :=
  ⟨hclosed, hmade, (absurd · hstate), (absurd · hstate), (absurd · hstate), (absurd · hstate)⟩

theorem connecting_eq_none {s : Connector} {sockfd : Fd} (h : (s.poller.epoll sockfd).isSome = true)
    : s.connecting sockfd = none := by
  simp [connecting, setState, Channel.enableWriting, Channel.new, EPollPoller.updateChannel,
    EPollPoller.update, EPollPoller.epollCtl, h]

theorem closed_retry (s : Connector) (sockfd : Fd) : (s.retry sockfd).closed = s.closed ++ [sockfd] := by
  unfold retry
  dsimp only
  split <;> rfl

theorem sockets_retry (s : Connector) (sockfd : Fd) : (s.retry sockfd).sockets = s.sockets := by
  unfold retry
  dsimp only
  split <;> rfl

theorem channel_retry (s : Connector) (sockfd : Fd) : (s.retry sockfd).channel_ = s.channel_ := by
  unfold retry
  dsimp only
  split <;> rfl

theorem lt_of_mem_append_singleton {fds : List Fd} {sockfd fd n : Nat} (h : ∀ fd ∈ fds, fd < n)
    (hsockfd : sockfd < n) (hfd : fd ∈ fds ++ [sockfd]) : fd < n := by
  rw [List.mem_append, List.mem_singleton] at hfd
  cases hfd with
  | inl hfd => exact h fd hfd
  | inr hfd => exact hfd ▸ hsockfd

theorem Attached.retry {s : Connector} {sockfd : Fd} (hclosed : ∀ fd ∈ s.closed, fd < s.sockets)
    (hmade : ∀ c, s.channel_ = some c → c.fd < s.sockets) (hsockfd : sockfd < s.sockets)
    : (s.retry sockfd).Attached := by
  apply of_state_ne
  . simp [state_retry]
  . intro fd hfd
    rw [closed_retry] at hfd
    rw [sockets_retry]
    exact lt_of_mem_append_singleton hclosed hsockfd hfd
  . rw [channel_retry, sockets_retry]
    exact hmade

theorem Attached.connect {s s' : Connector} {savedErrno : Nat} (h : s.Attached)
    (heq : s.connect savedErrno = some s') : s'.Attached := by
  have hclosed : ∀ fd ∈ s.closed, fd < s.sockets + 1 := fun fd hfd => Nat.lt_succ_of_lt (h.closed fd hfd)
  have hmade : ∀ c, s.channel_ = some c → c.fd < s.sockets + 1 := fun c hc => Nat.lt_succ_of_lt (h.made c hc)
  unfold Connector.connect at heq
  dsimp only at heq
  split at heq
  . cases hepoll : (s.poller.epoll s.sockets).isSome with
    | true => simp [connecting_eq_none (s := { s with sockets := s.sockets + 1 }) hepoll] at heq
    | false =>
      have hconnecting := connecting_eq_some (s := { s with sockets := s.sockets + 1 }) hepoll
      rw [heq, Option.some.injEq] at hconnecting
      subst hconnecting
      have hopen : s.sockets ∉ s.closed := fun hfd => Nat.lt_irrefl _ (h.closed _ hfd)
      refine ⟨hclosed, ?_, ?_, ?_, ?_, ?_⟩ <;> simp [connectingChannel, Channel.new, hopen]
  . simp only [Option.some.injEq] at heq
    subst heq
    exact retry hclosed hmade (Nat.lt_succ_self _)
  . simp only [Option.some.injEq] at heq
    subst heq
    refine ⟨?_, hmade, h.index, h.epoll, h.callbacks, ?_⟩
    . intro fd
      exact lt_of_mem_append_singleton hclosed (Nat.lt_succ_self _)
    . intro hstate c hc
      have hne : c.fd ≠ s.sockets := Nat.ne_of_lt (h.made c hc)
      simp [Connector.close, h.open_ hstate c hc, hne]

theorem Attached.startInLoop {s s' : Connector} {savedErrno : Nat} (h : s.Attached)
    (heq : s.startInLoop savedErrno = some s') : s'.Attached := by
  unfold Connector.startInLoop at heq
  split at heq
  . exact h.connect heq
  . simp only [Option.some.injEq] at heq
    exact heq ▸ h

-- `channel_` behind `removeAndResetChannel`, on whatever state it is called
def released (s : Connector) (c : Channel) : Connector :=
  { s with
      channel_ := some { c with events := Channel.kNoneEvent, index := .kNew }
      poller := s.poller.without c.fd
      resets := s.resets + 1 }

theorem Attached.released {s : Connector} (h : s.Attached) {c : Channel} (hchannel : s.channel_ = some c)
    : (∀ fd ∈ s.closed, fd < s.sockets) ∧ (∀ c', (s.released c).channel_ = some c' → c'.fd < s.sockets)
        ∧ c.fd < s.sockets := by
  refine ⟨h.closed, ?_, h.made c hchannel⟩
  rintro _ ⟨rfl⟩
  exact h.made c hchannel

theorem Attached.stopInLoop {s s' : Connector} (h : s.Attached) (heq : s.stopInLoop = some s')
    : s'.Attached := by
  unfold Connector.stopInLoop at heq
  split at heq
  . next hstate =>
    cases hchannel : s.channel_ with
    | none => simp [removeAndResetChannel, setState, hchannel] at heq
    | some c =>
      rw [removeAndResetChannel_eq_some (s := s.setState .kDisconnected) hchannel
        (h.index hstate c hchannel) (h.epoll hstate c hchannel), Option.map_some, Option.some.injEq] at heq
      subst heq
      obtain ⟨hclosed, hmade, hfd⟩ := h.released hchannel
      exact retry hclosed hmade hfd
  . simp only [Option.some.injEq] at heq
    exact heq ▸ h

theorem handleWrite_eq_some {s : Connector} {c : Channel} (h : s.Attached) (hstate : s.state_ = .kConnecting)
    (hchannel : s.channel_ = some c) (err : Nat) (isSelfConnect : Bool)
    : s.handleWrite err isSelfConnect =
        some
          (if err ≠ 0 ∨ isSelfConnect = true then
            (s.released c).retry c.fd
          else if s.connect_ then
            { (s.released c).setState .kConnected with handed := s.handed ++ [c.fd] }
          else
            ((s.released c).setState .kConnected).close c.fd) := by
  unfold handleWrite
  rw [if_pos hstate, removeAndResetChannel_eq_some hchannel (h.index hstate c hchannel)
    (h.epoll hstate c hchannel), Option.map_some]
  by_cases herr : err = 0
  . cases isSelfConnect
    . cases hconnect : s.connect_ <;> simp [herr, hconnect, released, setState]
    . simp [herr, released]
  . simp [herr, released]

theorem handleError_eq_none {s : Connector} {c : Channel} (h : s.Attached)
    (hstate : s.state_ = .kConnecting) (hchannel : s.channel_ = some c) : s.handleError = none := by
  unfold handleError
  rw [if_pos hstate, removeAndResetChannel_eq_some hchannel (h.index hstate c hchannel)
    (h.epoll hstate c hchannel)]
  rfl

theorem Attached.handleWrite {s s' : Connector} {err : Nat} {isSelfConnect : Bool} (h : s.Attached)
    (heq : s.handleWrite err isSelfConnect = some s') : s'.Attached := by
  by_cases hstate : s.state_ = .kConnecting
  . cases hchannel : s.channel_ with
    | none => simp [Connector.handleWrite, removeAndResetChannel, hstate, hchannel] at heq
    | some c =>
      rw [handleWrite_eq_some h hstate hchannel, Option.some.injEq] at heq
      subst heq
      obtain ⟨hclosed, hmade, hfd⟩ := h.released hchannel
      split
      . exact retry hclosed hmade hfd
      . split
        . exact of_state_ne (by simp [setState]) hclosed hmade
        . apply of_state_ne
          . simp [setState, close]
          . intro fd
            exact lt_of_mem_append_singleton hclosed hfd
          . exact hmade
  . simp only [Connector.handleWrite, if_neg hstate, Option.some.injEq] at heq
    exact heq ▸ h

theorem Attached.handleError {s s' : Connector} (h : s.Attached) (heq : s.handleError = some s')
    : s'.Attached := by
  by_cases hstate : s.state_ = .kConnecting
  . cases hchannel : s.channel_ with
    | none => simp [Connector.handleError, removeAndResetChannel, hstate, hchannel] at heq
    | some c => simp [handleError_eq_none h hstate hchannel] at heq
  . simp only [Connector.handleError, if_neg hstate, Option.some.injEq] at heq
    exact heq ▸ h

theorem Attached.step {s s' : Connector} {a : Label} (h : s.Attached) (hstep : system.step s a = some s')
    : s'.Attached := by
  rw [system, LTS.guarded_step] at hstep
  obtain ⟨_, hnext⟩ := hstep
  cases a with
  | start savedErrno =>
    have hon : { s with connect_ := true }.Attached := { h with }
    exact hon.startInLoop hnext
  | stop =>
    have hoff : { s with connect_ := false }.Attached := { h with }
    exact hoff.stopInLoop hnext
  | restart savedErrno =>
    have hdisconnected : { s.setState .kDisconnected with connect_ := true }.Attached :=
      of_state_ne (by simp [setState]) h.closed h.made
    exact hdisconnected.startInLoop hnext
  | handleWrite err isSelfConnect => exact h.handleWrite hnext
  | handleError => exact h.handleError hnext
  | timer i savedErrno =>
    have hfired : { s with timers := s.timers.eraseIdx i }.Attached := { h with }
    exact hfired.startInLoop hnext
  | resetChannel =>
    simp only [next, Option.some.injEq] at hnext
    subst hnext
    refine ⟨h.closed, ?_, ?_, ?_, ?_, ?_⟩ <;> simp [resetChannel]

theorem attached_reachable {s : Connector} (h : system.Reachable s) : s.Attached := by
  apply h.invariant Attached
  . rintro _ rfl
    refine ⟨?_, ?_, ?_, ?_, ?_, ?_⟩ <;> simp [new]
  . intro _ _ _ hinv hstep
    exact hinv.step hstep

-- `SO_ERROR`, a `getsockopt` that fails, or a connection to itself
def attemptFailed (err : Nat) (isSelfConnect : Bool) : Prop :=
  err ≠ 0 ∨ isSelfConnect = true

structure Retried (s s' : Connector) (sockfd : Fd) : Prop where
  closed : s'.closed.count sockfd = 1
  state : s'.state_ = .kDisconnected
  removed : ∀ addr, ¬s'.poller.Registered sockfd addr
  timer : s'.timers = s.timers ++ [s.retryDelayMs]

theorem timers_retry {s : Connector} (h : s.connect_ = true) (sockfd : Fd)
    : (s.retry sockfd).timers = s.timers ++ [s.retryDelayMs] := by
  simp [retry, close, setState, h]

theorem retried_released {s : Connector} {c : Channel} (h : s.Attached) (hstate : s.state_ = .kConnecting)
    (hchannel : s.channel_ = some c) (hconnect : s.connect_ = true)
    : Retried s ((s.released c).retry c.fd) c.fd := by
  constructor
  . rw [closed_retry, count_append_singleton, if_pos rfl]
    exact congrArg (· + 1) (List.count_eq_zero.mpr (h.open_ hstate c hchannel))
  . apply state_retry
  . rw [poller_retry]
    apply EPollPoller.not_registered_without
  . exact timers_retry (s := s.released c) hconnect c.fd

theorem handleEventWithGuard_eq {c : Channel} (h : c.callbacks = [.write, .error])
    : c.handleEventWithGuard =
        (if c.revents &&& EPOLLERR = 0 then [] else [.error])
          ++ (if c.revents &&& EPOLLOUT = 0 then [] else [.write]) := by
  simp [Channel.handleEventWithGuard, h]

theorem handleEvent_error {s : Connector} {c : Channel} (h : s.Attached) (hstate : s.state_ = .kConnecting)
    (hchannel : s.channel_ = some c) {revents : Events} (herror : revents &&& EPOLLERR ≠ 0) (err : Nat)
    (isSelfConnect : Bool) : s.handleEvent c revents err isSelfConnect = none := by
  unfold handleEvent
  rw [handleEventWithGuard_eq (c := { c with revents := revents }) (h.callbacks hstate c hchannel),
    if_neg herror, List.singleton_append, List.foldlM_cons, runCallback,
    handleError_eq_none h hstate hchannel]
  rfl

theorem handleEvent_noError {s : Connector} {c : Channel} (h : s.Attached) (hstate : s.state_ = .kConnecting)
    (hchannel : s.channel_ = some c) {revents : Events} (herror : revents &&& EPOLLERR = 0) (err : Nat)
    (isSelfConnect : Bool)
    : s.handleEvent c revents err isSelfConnect =
        if revents &&& EPOLLOUT = 0 then some s else s.handleWrite err isSelfConnect := by
  unfold handleEvent
  rw [handleEventWithGuard_eq (c := { c with revents := revents }) (h.callbacks hstate c hchannel),
    if_pos herror, List.nil_append]
  split
  . rfl
  . simp [runCallback]

/--
An event on the channel of an attempt, in any run and after any number of attempts: the process goes on,
and a failed attempt is retried, exactly when no error is reported, and a failure comes with the event
that lets `handleWrite` see it. `handleError` ends the process before its `retry`, and nothing is set
for a hang-up.
-/
theorem failed_attempt_retried {s : Connector} {c : Channel} (h : system.Reachable s)
    (hstate : s.state_ = .kConnecting) (hchannel : s.channel_ = some c) (revents : Events) (err : Nat)
    (isSelfConnect : Bool)
    : (∃ s', s.handleEvent c revents err isSelfConnect = some s'
          ∧ (attemptFailed err isSelfConnect → s.connect_ = true → Retried s s' c.fd))
        ↔
      revents &&& EPOLLERR = 0
        ∧ (attemptFailed err isSelfConnect → s.connect_ = true → revents &&& EPOLLOUT ≠ 0) := by
  have hattached := attached_reachable h
  by_cases herror : revents &&& EPOLLERR = 0
  . rw [handleEvent_noError hattached hstate hchannel herror]
    by_cases hout : revents &&& EPOLLOUT = 0
    . have hunchanged : ¬Retried s s c.fd := by
        intro hretried
        rw [hretried.state] at hstate
        cases hstate
      simp [herror, hout, hunchanged]
    . rw [if_neg hout, handleWrite_eq_some hattached hstate hchannel]
      refine ⟨fun _ => ⟨herror, fun _ _ => hout⟩, fun _ => ⟨_, rfl, ?_⟩⟩
      intro hfailed hconnect
      rw [attemptFailed] at hfailed
      rw [if_pos hfailed]
      exact retried_released hattached hstate hchannel hconnect
  . constructor
    . rintro ⟨s', heq, _⟩
      rw [handleEvent_error hattached hstate hchannel herror] at heq
      cases heq
    . rintro ⟨hnone, _⟩
      exact absurd hnone herror

-- a refused attempt and its retry
def attempting : Connector :=
  (system.run new [.start ECONNREFUSED, .timer 0 EINPROGRESS]).get (by decide +kernel)

theorem attempting_reachable : system.Reachable attempting :=
  LTS.Reachable.run (.init rfl) (Option.some_get _).symm

theorem failed_attempt_retried_refused
    : attempting.closed = [0]
        ∧ ∃ s', attempting.handleEvent (connectingChannel 1) EPOLLOUT ECONNREFUSED false = some s'
          ∧ Retried attempting s' 1 := by
  have hfailed : attemptFailed ECONNREFUSED false := .inl (by decide)
  have hconnect : attempting.connect_ = true := by
    decide +kernel
  refine ⟨by decide +kernel, ?_⟩
  obtain ⟨s', heq, hretried⟩ :=
    (failed_attempt_retried (c := connectingChannel 1) attempting_reachable (by decide +kernel)
      (by decide +kernel) EPOLLOUT ECONNREFUSED false).mpr ⟨by decide, fun _ _ => by decide⟩
  exact ⟨s', heq, hretried hfailed hconnect⟩

/--
The mask that Linux reports for a refused connection ends the process; a hang-up alone leaves the
socket and the state as they are.
-/
theorem refused_attempt_fatal
    : system.Reachable attempting ∧ attempting.state_ = .kConnecting ∧ attempting.connect_ = true
        ∧ attempting.channel_ = some (connectingChannel 1)
        ∧ attempting.handleEvent (connectingChannel 1) (EPOLLOUT ||| EPOLLERR ||| EPOLLHUP) ECONNREFUSED
            false = none
        ∧ ∃ s', attempting.handleEvent (connectingChannel 1) EPOLLHUP ECONNREFUSED false = some s'
          ∧ s'.closed = [0] ∧ s'.state_ = .kConnecting ∧ s'.timers = [] := by
  refine ⟨attempting_reachable, by decide +kernel, by decide +kernel, by decide +kernel, by decide +kernel, ?_⟩
  exact ⟨attempting, rfl, by decide +kernel, by decide +kernel, by decide +kernel⟩

end Connector

end MyMuduo
