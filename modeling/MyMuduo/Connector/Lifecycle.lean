import MyMuduo.Connector.Ownership

/-!
This module contains the runs of a connector on the loop thread, and that every socket stays accounted
for as long as nothing disturbs the attempt in flight.
-/

namespace MyMuduo

namespace Connector

/--
The calls of the user and what the loop runs for the connector, with the results of the system calls.
`newConnectionCallback_` is the last thing that `handleWrite` does, so that what the user calls in it
comes after the step.
-/
inductive Label where
  | start (savedErrno : Nat)
  | stop
  | restart (savedErrno : Nat)
  | handleWrite (err : Nat) (isSelfConnect : Bool)
  | handleError
  | timer (i : Nat) (savedErrno : Nat)
  | resetChannel
  deriving DecidableEq, Repr

def enabled (s : Connector) : Label → Bool
  | .timer i _ => i < s.timers.length
  | .resetChannel => 0 < s.resets
  | .start _ | .stop | .restart _ | .handleWrite .. | .handleError => true

def next (s : Connector) : Label → Option Connector
  | .start savedErrno => s.start savedErrno
  | .stop => s.stop
  | .restart savedErrno => s.restart savedErrno
  | .handleWrite err isSelfConnect => s.handleWrite err isSelfConnect
  | .handleError => s.handleError
  | .timer i savedErrno => { s with timers := s.timers.eraseIdx i }.startInLoop savedErrno
  | .resetChannel => some { s.resetChannel with resets := s.resets - 1 }

def system : LTS Connector Label :=
  .guarded (fun s => s = .new) enabled next

/--
The step leaves an attempt in flight alone: `connect` runs only into an error that ends its own socket,
nobody calls `restart`, and no functor of an earlier attempt deletes the channel.
-/
def Undisturbed (s : Connector) : Label → Prop
  | .start savedErrno => s.state_ = .kConnecting → outcome savedErrno = .close
  | .timer _ savedErrno => s.state_ = .kConnecting → s.connect_ = true → outcome savedErrno = .close
  | .restart _ => s.state_ ≠ .kConnecting
  | .resetChannel => s.state_ ≠ .kConnecting
  | .stop | .handleWrite .. | .handleError => True

instance (s : Connector) : (a : Label) → Decidable (s.Undisturbed a)
  | .start _ => inferInstanceAs (Decidable (_ → _))
  | .timer .. => inferInstanceAs (Decidable (_ → _ → _))
  | .restart _ => inferInstanceAs (Decidable (¬_))
  | .resetChannel => inferInstanceAs (Decidable (¬_))
  | .stop | .handleWrite .. | .handleError => .isTrue trivial

theorem Idle.connect {s : Connector} (h : s.Idle) (savedErrno : Nat)
    : ∃ s', s.connect savedErrno = some s' ∧ s'.Accounted := by
  unfold Connector.connect
  dsimp only
  split
  . obtain ⟨s', heq, hs'⟩ := h.holding.connecting
    exact ⟨s', heq, .inr ⟨_, hs'⟩⟩
  . exact ⟨_, rfl, .inl h.holding.retry⟩
  . exact ⟨_, rfl, .inl (h.holding.close h.state)⟩

theorem InFlight.connect {s : Connector} {c : Channel} (h : s.InFlight c) {savedErrno : Nat}
    (hclose : outcome savedErrno = .close)
    : ∃ s', s.connect savedErrno = some s' ∧ s'.InFlight c := by
  have hmade : c.fd ≠ s.sockets := Nat.ne_of_lt h.made
  unfold Connector.connect
  simp only [hclose]
  refine ⟨_, rfl, ⟨h.channel, h.index, h.poller, Nat.lt_succ_of_lt h.made, ?_⟩, h.state⟩
  intro fd
  rw [disposals_close]
  change s.disposals fd + _ = if fd < s.sockets + 1 ∧ fd ≠ c.fd then 1 else 0
  simp only [h.disposed, Nat.lt_succ_iff_lt_or_eq]
  by_cases heq : fd = s.sockets
  . simp [heq, hmade.symm]
  . simp [heq]

theorem Attempt.congr {s s' : Connector} {c : Channel} (h : s.Attempt c) (hchannel : s'.channel_ = s.channel_)
    (hpoller : s'.poller = s.poller) (hsockets : s'.sockets = s.sockets)
    (hdisposals : s'.disposals = s.disposals) : s'.Attempt c := by
  refine ⟨hchannel.trans h.channel, h.index, hpoller.trans h.poller, hsockets ▸ h.made, ?_⟩
  rw [hdisposals, hsockets]
  exact h.disposed

theorem InFlight.stopInLoop {s : Connector} {c : Channel} (h : s.InFlight c)
    : ∃ s', s.stopInLoop = some s' ∧ s'.Idle := by
  have hdisconnected : (s.setState .kDisconnected).Attempt c := h.toAttempt.congr rfl rfl rfl rfl
  obtain ⟨t, ht, hholding, _⟩ := hdisconnected.removeAndResetChannel
  unfold Connector.stopInLoop
  rw [if_pos h.state, ht]
  exact ⟨_, rfl, hholding.retry⟩

theorem InFlight.handleError {s : Connector} {c : Channel} (h : s.InFlight c) : s.handleError = none := by
  obtain ⟨t, ht, _⟩ := h.removeAndResetChannel
  unfold Connector.handleError
  rw [if_pos h.state, ht]
  rfl

theorem InFlight.handleWrite {s : Connector} {c : Channel} (h : s.InFlight c) (err : Nat)
    (isSelfConnect : Bool) : ∃ s', s.handleWrite err isSelfConnect = some s' ∧ s'.Idle := by
  obtain ⟨t, ht, hholding, _⟩ := h.removeAndResetChannel
  unfold Connector.handleWrite
  rw [if_pos h.state, ht, Option.map_some]
  refine ⟨_, rfl, ?_⟩
  dsimp only
  split
  . exact hholding.retry
  . split
    . exact hholding.retry
    . have hconnected : (t.setState .kConnected).Holding c.fd :=
        ⟨hholding.made, hholding.poller, hholding.disposed⟩
      have hstate : (t.setState .kConnected).state_ ≠ .kConnecting := by
        simp [setState]
      split
      . exact hconnected.hand hstate
      . exact hconnected.close hstate

theorem Accounted.congr {s s' : Connector} (h : s.Accounted) (hstate : s'.state_ = s.state_)
    (hchannel : s'.channel_ = s.channel_) (hpoller : s'.poller = s.poller) (hsockets : s'.sockets = s.sockets)
    (hdisposals : s'.disposals = s.disposals) : s'.Accounted := by
  cases h with
  | inl h =>
    refine .inl ⟨hstate ▸ h.state, hpoller.trans h.poller, ?_⟩
    rw [hdisposals, hsockets]
    exact h.disposed
  | inr h =>
    obtain ⟨c, h⟩ := h
    exact .inr ⟨c, h.toAttempt.congr hchannel hpoller hsockets hdisposals, hstate.trans h.state⟩

theorem Accounted.idle {s : Connector} (h : s.Accounted) (hstate : s.state_ ≠ .kConnecting) : s.Idle := by
  cases h with
  | inl h => exact h
  | inr h =>
    obtain ⟨c, h⟩ := h
    exact absurd h.state hstate

theorem Accounted.inFlight {s : Connector} (h : s.Accounted) (hstate : s.state_ = .kConnecting)
    : ∃ c, s.InFlight c := by
  cases h with
  | inl h => exact absurd hstate h.state
  | inr h => exact h

theorem Accounted.startInLoop {s s' : Connector} {savedErrno : Nat} (h : s.Accounted)
    (hok : s.state_ = .kConnecting → s.connect_ = true → outcome savedErrno = .close)
    (heq : s.startInLoop savedErrno = some s') : s'.Accounted := by
  unfold Connector.startInLoop at heq
  split at heq
  . next hconnect =>
    cases h with
    | inl h =>
      obtain ⟨t, ht, haccounted⟩ := h.connect savedErrno
      rw [heq, Option.some.injEq] at ht
      exact ht ▸ haccounted
    | inr h =>
      obtain ⟨c, h⟩ := h
      obtain ⟨t, ht, hflight⟩ := h.connect (hok h.state hconnect)
      rw [heq, Option.some.injEq] at ht
      exact .inr ⟨c, ht ▸ hflight⟩
  . simp only [Option.some.injEq] at heq
    exact heq ▸ h

theorem Accounted.step {s s' : Connector} {a : Label} (h : s.Accounted) (hok : s.Undisturbed a)
    (hstep : system.step s a = some s') : s'.Accounted := by
  rw [system, LTS.guarded_step] at hstep
  obtain ⟨_, hnext⟩ := hstep
  cases a with
  | start savedErrno =>
    have hon : { s with connect_ := true }.Accounted := h.congr rfl rfl rfl rfl rfl
    exact hon.startInLoop (fun hstate _ => hok hstate) hnext
  | stop =>
    by_cases hstate : s.state_ = .kConnecting
    . obtain ⟨c, hc⟩ := h.inFlight hstate
      have hoff : { s with connect_ := false }.InFlight c := ⟨hc.toAttempt.congr rfl rfl rfl rfl, hc.state⟩
      obtain ⟨t, ht, hidle⟩ := hoff.stopInLoop
      simp only [next, Connector.stop, ht, Option.some.injEq] at hnext
      exact .inl (hnext ▸ hidle)
    . simp only [next, Connector.stop, Connector.stopInLoop, if_neg hstate, Option.some.injEq] at hnext
      exact hnext ▸ h.congr rfl rfl rfl rfl rfl
  | restart savedErrno =>
    have hidle := h.idle hok
    have hdisconnected : { s.setState .kDisconnected with connect_ := true }.Idle :=
      ⟨by simp [setState], hidle.poller, hidle.disposed⟩
    exact Accounted.startInLoop (.inl hdisconnected) (fun hstate => absurd hstate hdisconnected.state) hnext
  | handleWrite err isSelfConnect =>
    by_cases hstate : s.state_ = .kConnecting
    . obtain ⟨c, hc⟩ := h.inFlight hstate
      obtain ⟨t, ht, hidle⟩ := hc.handleWrite err isSelfConnect
      simp only [next, ht, Option.some.injEq] at hnext
      exact .inl (hnext ▸ hidle)
    . simp only [next, Connector.handleWrite, if_neg hstate, Option.some.injEq] at hnext
      exact hnext ▸ h
  | handleError =>
    by_cases hstate : s.state_ = .kConnecting
    . obtain ⟨c, hc⟩ := h.inFlight hstate
      simp [next, hc.handleError] at hnext
    . simp only [next, Connector.handleError, if_neg hstate, Option.some.injEq] at hnext
      exact hnext ▸ h
  | timer i savedErrno =>
    have hfired : { s with timers := s.timers.eraseIdx i }.Accounted := h.congr rfl rfl rfl rfl rfl
    exact hfired.startInLoop hok hnext
  | resetChannel =>
    have hidle := h.idle hok
    simp only [next, Option.some.injEq] at hnext
    exact .inl (hnext ▸ ⟨hidle.state, hidle.poller, hidle.disposed⟩)

theorem accounted_new : new.Accounted := by
  refine .inl ⟨by simp [new], rfl, ?_⟩
  intro fd
  rfl

theorem accounted_reachable {s : Connector} (h : system.ReachableBy Undisturbed s) : s.Accounted := by
  apply h.invariant Accounted
  . rintro _ rfl
    exact accounted_new
  . intro _ _ _ hinv hok hstep
    exact hinv.step hok hstep

def SocketInFlight (s : Connector) (fd : Fd) : Prop :=
  ∃ c, s.channel_ = some c ∧ c.fd = fd ∧ s.poller.Registered fd c.addr

/--
All channels that are registered are the one in `channel_`, hence there is at most one, and every
socket is in exactly one of three situations.
-/
structure Owned (s : Connector) : Prop where
  live : ∀ fd addr, s.poller.Registered fd addr → ∃ c, s.channel_ = some c ∧ c.fd = fd ∧ c.addr = addr
  connecting : (∃ fd addr, s.poller.Registered fd addr) ↔ s.state_ = .kConnecting
  sockets : ∀ fd < s.sockets,
    (s.SocketInFlight fd ∧ s.closed.count fd = 0 ∧ s.handed.count fd = 0)
      ∨ (¬s.SocketInFlight fd ∧ s.closed.count fd = 1 ∧ s.handed.count fd = 0)
      ∨ (¬s.SocketInFlight fd ∧ s.closed.count fd = 0 ∧ s.handed.count fd = 1)

theorem Idle.owned {s : Connector} (h : s.Idle) : s.Owned := by
  have hnone : ∀ fd addr, ¬s.poller.Registered fd addr := by
    rw [h.poller]
    apply EPollPoller.not_registered_empty
  constructor
  . intro fd addr hregistered
    exact absurd hregistered (hnone fd addr)
  . simp [hnone, h.state]
  . intro fd hmade
    have hdisposed := h.disposed fd
    simp only [disposals, if_pos hmade] at hdisposed
    simp only [SocketInFlight, hnone]
    simp
    omega

theorem InFlight.owned {s : Connector} {c : Channel} (h : s.InFlight c) : s.Owned := by
  have hregistered : ∀ fd addr, s.poller.Registered fd addr ↔ fd = c.fd ∧ addr = c.addr := by
    intro fd addr
    rw [h.poller]
    apply EPollPoller.registered_only
  constructor
  . intro fd addr hfd
    rw [hregistered] at hfd
    exact ⟨c, h.channel, hfd.1.symm, hfd.2.symm⟩
  . simp [hregistered, h.state]
  . intro fd hmade
    have hdisposed := h.disposed fd
    have hflight : s.SocketInFlight fd ↔ fd = c.fd := by
      simp only [SocketInFlight, hregistered, h.channel, Option.some.injEq]
      constructor
      . rintro ⟨_, rfl, rfl, _⟩
        rfl
      . rintro rfl
        exact ⟨c, rfl, rfl, rfl, rfl⟩
    simp only [disposals, hmade, true_and] at hdisposed
    rw [hflight]
    by_cases heq : fd = c.fd
    . rw [if_neg (by simp [heq])] at hdisposed
      left
      exact ⟨heq, by omega⟩
    . rw [if_pos heq] at hdisposed
      simp only [heq, not_false_eq_true, true_and, false_and, false_or]
      omega

theorem Accounted.owned {s : Connector} (h : s.Accounted) : s.Owned := by
  cases h with
  | inl h => exact h.owned
  | inr h =>
    obtain ⟨c, h⟩ := h
    exact h.owned

/-
A step that disturbs the attempt in flight breaks the ownership at once.
-/

theorem Attempt.registered {s : Connector} {c : Channel} (h : s.Attempt c)
    : s.poller.Registered c.fd c.addr := by
  rw [h.poller, EPollPoller.registered_only]
  exact ⟨rfl, rfl⟩

theorem not_owned_of_registered {s : Connector} {fd : Fd} {addr : Addr}
    (hregistered : s.poller.Registered fd addr) (hstate : s.state_ ≠ .kConnecting) : ¬s.Owned :=
  fun h => hstate (h.connecting.mp ⟨fd, addr, hregistered⟩)

theorem Attempt.not_owned_connect {s s' : Connector} {c : Channel} {savedErrno : Nat} (h : s.Attempt c)
    (hdisturbed : s.state_ = .kConnecting → outcome savedErrno ≠ .close)
    (heq : s.connect savedErrno = some s') : ¬s'.Owned := by
  unfold Connector.connect at heq
  dsimp only at heq
  split at heq
  . -- the first channel is replaced while it is registered
    have hother : c.fd ≠ s.sockets := Nat.ne_of_lt h.made
    have habsent : (s.poller.epoll s.sockets).isSome = false := by
      simp [h.poller, EPollPoller.only, hother.symm]
    have hconnecting := connecting_eq_some (s := { s with sockets := s.sockets + 1 }) habsent
    rw [heq, Option.some.injEq] at hconnecting
    subst hconnecting
    intro howned
    have hregistered : EPollPoller.Registered
        { s.poller with
          channels := Function.update s.poller.channels s.sockets (some s.sockets)
          epoll := Function.update s.poller.epoll s.sockets (some (Channel.kWriteEvent, s.sockets)) }
        c.fd c.addr := by
      simp [h.poller, EPollPoller.only, EPollPoller.Registered, hother]
    obtain ⟨_, ⟨rfl⟩, hfd, _⟩ := howned.live c.fd c.addr hregistered
    exact hother hfd.symm
  . simp only [Option.some.injEq] at heq
    subst heq
    refine not_owned_of_registered (?_ : EPollPoller.Registered _ c.fd c.addr) ?_
    . rw [poller_retry]
      exact h.registered
    . simp [state_retry]
  . next hclose =>
    simp only [Option.some.injEq] at heq
    subst heq
    exact not_owned_of_registered h.registered fun hstate => hdisturbed hstate hclose

theorem InFlight.not_owned_step {s s' : Connector} {c : Channel} {a : Label} (h : s.InFlight c)
    (hdisturbed : ¬s.Undisturbed a) (hstep : system.step s a = some s') : ¬s'.Owned := by
  rw [system, LTS.guarded_step] at hstep
  obtain ⟨_, hnext⟩ := hstep
  cases a with
  | start savedErrno =>
    have hon : { s with connect_ := true }.Attempt c := h.toAttempt.congr rfl rfl rfl rfl
    simp only [Undisturbed, h.state, true_imp_iff] at hdisturbed
    exact hon.not_owned_connect (fun _ => hdisturbed) hnext
  | restart savedErrno =>
    have hon : { s.setState .kDisconnected with connect_ := true }.Attempt c :=
      h.toAttempt.congr rfl rfl rfl rfl
    exact hon.not_owned_connect (by simp [setState]) hnext
  | timer i savedErrno =>
    have hfired : { s with timers := s.timers.eraseIdx i }.Attempt c := h.toAttempt.congr rfl rfl rfl rfl
    simp only [Undisturbed, h.state, true_imp_iff, Classical.not_imp] at hdisturbed
    simp only [next, Connector.startInLoop, if_pos hdisturbed.1] at hnext
    exact hfired.not_owned_connect (fun _ => hdisturbed.2) hnext
  | resetChannel =>
    simp only [next, Option.some.injEq] at hnext
    subst hnext
    intro howned
    obtain ⟨_, hnone, _⟩ := howned.live c.fd c.addr h.registered
    simp [resetChannel] at hnone
  | stop | handleWrite | handleError => exact absurd trivial hdisturbed

/--
Ownership in every state of a run whose steps are undisturbed, and the next step keeps it exactly
when it is undisturbed as well.
-/
theorem sockets_owned {s : Connector} (h : system.ReachableBy Undisturbed s)
    : s.Owned ∧ ∀ a s', system.step s a = some s' → (s'.Owned ↔ s.Undisturbed a) := by
  have haccounted := accounted_reachable h
  refine ⟨haccounted.owned, ?_⟩
  intro a s' hstep
  constructor
  . intro howned
    by_contra hdisturbed
    have hstate : s.state_ = .kConnecting := by
      by_contra hstate
      cases a <;> simp [Undisturbed, hstate] at hdisturbed
    obtain ⟨c, hc⟩ := haccounted.inFlight hstate
    exact hc.not_owned_step hdisturbed hstep howned
  . intro hok
    exact (haccounted.step hok hstep).owned

-- a refused attempt, its retry, which is stopped, and one more attempt, which succeeds
def refusedStoppedConnected : List Label :=
  [.start ECONNREFUSED, .timer 0 EINPROGRESS, .stop, .resetChannel, .start EINPROGRESS,
    .handleWrite 0 false]

def connected : Connector :=
  (system.runChecked (fun s a => s.Undisturbed a) new refusedStoppedConnected).get (by decide +kernel)

theorem sockets_owned_connected
    : connected.closed = [0, 1] ∧ connected.handed = [2] ∧ connected.resets = 1 ∧ connected.Owned := by
  refine ⟨by decide +kernel, by decide +kernel, by decide +kernel, ?_⟩
  apply And.left
  apply sockets_owned
  apply LTS.ReachableBy.runChecked _ (.init rfl) (Option.some_get _).symm
  simp

def startedTwice : Connector :=
  (system.run new [.start EINPROGRESS, .start EINPROGRESS]).get (by decide +kernel)

/--
Two calls of `start`: the second attempt replaces the channel of the first one, which stays registered,
and nobody owns its socket.
-/
theorem start_twice
    : system.Reachable startedTwice ∧ startedTwice.poller.Registered 0 0
        ∧ startedTwice.poller.Registered 1 1 ∧ startedTwice.channel_.map Channel.fd = some 1
        ∧ startedTwice.closed = [] ∧ startedTwice.handed = [] ∧ ¬startedTwice.Owned := by
  have hreachable : system.Reachable startedTwice :=
    LTS.Reachable.run (.init rfl) (Option.some_get _).symm
  have hchannel : startedTwice.channel_.map Channel.fd = some 1 := by
    decide +kernel
  have hfirst : startedTwice.poller.Registered 0 0 := .inl (by decide +kernel)
  have hsecond : startedTwice.poller.Registered 1 1 := .inl (by decide +kernel)
  refine ⟨hreachable, hfirst, hsecond, hchannel, by decide +kernel, by decide +kernel, ?_⟩
  intro howned
  obtain ⟨c, hc, hfd, _⟩ := howned.live 0 0 hfirst
  rw [hc, Option.map_some, hfd] at hchannel
  exact absurd hchannel (by decide)

end Connector

end MyMuduo
