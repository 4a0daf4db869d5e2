import Mathlib.Algebra.Ring.Nat
import MyMuduo.Connector.Lifecycle
import MyMuduo.Transition.History

/-!
This module contains the delays of the retries: every failed attempt doubles the delay up to a maximum, and
nothing sets it back, so that what an outage begins with depends on the outages before it.
-/

namespace MyMuduo

namespace Connector

/--
The specification: the delay behind the `k`-th failed attempt of an outage.
-/
def law (k : Nat) : Nat :=
  min (kInitRetryDelayMs * 2 ^ (k - 1)) kMaxRetryDelayMs

-- `retryDelayMs_` has the type `int`
def INT_MAX : Nat := 0x7fffffff

-- the timers that a step leaves, before it schedules a new one
def fired (s : Connector) : Label → List Nat
  | .timer i _ => s.timers.eraseIdx i
  | _ => s.timers

-- the delays of the retries that a step schedules
def scheduled (s : Connector) (a : Label) (s' : Connector) : List Nat :=
  s'.timers.drop (s.fired a).length

/--
An operation schedules no retry, or one with the present delay, which it doubles.
-/
inductive Backs (timers : List Nat) (delay : Nat) (s' : Connector) : Prop where
  | kept : s'.timers = timers → s'.retryDelayMs = delay → Backs timers delay s'
  | doubled : s'.timers = timers ++ [delay] → s'.retryDelayMs = min (delay * 2) kMaxRetryDelayMs →
    Backs timers delay s'

variable {s s' : Connector} {a : Label} {savedErrno : Nat}

theorem backs_retry {timers : List Nat} {delay : Nat} (sockfd : Fd) (htimers : s.timers = timers)
    (hdelay : s.retryDelayMs = delay) : Backs timers delay (s.retry sockfd) := by
  subst htimers hdelay
  unfold retry
  dsimp only
  split
  . exact .doubled rfl rfl
  . exact .kept rfl rfl

theorem backs_connect (heq : s.connect savedErrno = some s') : Backs s.timers s.retryDelayMs s' := by
  unfold connect at heq
  dsimp only at heq
  split at heq
  . simp only [connecting, Option.map_eq_some_iff] at heq
    obtain ⟨_, _, rfl⟩ := heq
    exact .kept rfl rfl
  . simp only [Option.some.injEq] at heq
    exact heq ▸ backs_retry _ rfl rfl
  . simp only [Option.some.injEq] at heq
    exact heq ▸ .kept rfl rfl

theorem backs_startInLoop (heq : s.startInLoop savedErrno = some s') : Backs s.timers s.retryDelayMs s' := by
  unfold startInLoop at heq
  split at heq
  . exact backs_connect heq
  . simp only [Option.some.injEq] at heq
    exact heq ▸ .kept rfl rfl

/--
What `removeAndResetChannel` does to the other fields: it queues one functor.
-/
theorem frame_removeAndResetChannel {sockfd : Fd} (heq : s.removeAndResetChannel = some (s', sockfd))
    : ∃ channel poller, s' =
        { s with channel_ := some channel, poller := poller, resets := s.resets + 1 } := by
  simp only [removeAndResetChannel, Option.map_eq_some_iff, Option.bind_eq_some_iff, Prod.mk.injEq] at heq
  obtain ⟨_, _, _, _, _, _, rfl, _⟩ := heq
  exact ⟨_, _, rfl⟩

theorem backs_stopInLoop (heq : s.stopInLoop = some s') : Backs s.timers s.retryDelayMs s' := by
  unfold stopInLoop at heq
  split at heq
  . simp only [Option.map_eq_some_iff] at heq
    obtain ⟨⟨t, sockfd⟩, hremoved, rfl⟩ := heq
    obtain ⟨_, _, rfl⟩ := frame_removeAndResetChannel hremoved
    exact backs_retry _ rfl rfl
  . simp only [Option.some.injEq] at heq
    exact heq ▸ .kept rfl rfl

theorem backs_handleWrite {err : Nat} {isSelfConnect : Bool} (heq : s.handleWrite err isSelfConnect = some s')
    : Backs s.timers s.retryDelayMs s' := by
  unfold handleWrite at heq
  split at heq
  . simp only [Option.map_eq_some_iff] at heq
    obtain ⟨⟨t, sockfd⟩, hremoved, rfl⟩ := heq
    obtain ⟨_, _, rfl⟩ := frame_removeAndResetChannel hremoved
    dsimp only
    split
    . exact backs_retry _ rfl rfl
    . split
      . exact backs_retry _ rfl rfl
      . split
        . exact .kept rfl rfl
        . exact .kept rfl rfl
  . simp only [Option.some.injEq] at heq
    exact heq ▸ .kept rfl rfl

-- behind the message the process has ended
theorem handleError_eq (heq : s.handleError = some s') : s' = s := by
  unfold handleError at heq
  split at heq
  . simp [LOG_FATAL] at heq
  . simp only [Option.some.injEq] at heq
    exact heq.symm

theorem backs_next (hnext : s.next a = some s') : Backs (s.fired a) s.retryDelayMs s' := by
  cases a with
  | start savedErrno => exact backs_startInLoop (s := { s with connect_ := true }) hnext
  | stop => exact backs_stopInLoop (s := { s with connect_ := false }) hnext
  | restart savedErrno =>
    exact backs_startInLoop (s := { s.setState .kDisconnected with connect_ := true }) hnext
  | handleWrite err isSelfConnect => exact backs_handleWrite hnext
  | handleError =>
    rw [handleError_eq hnext]
    exact .kept rfl rfl
  | timer i savedErrno => exact backs_startInLoop (s := { s with timers := s.timers.eraseIdx i }) hnext
  | resetChannel =>
    simp only [next, Option.some.injEq] at hnext
    exact hnext ▸ .kept rfl rfl

theorem backs_step (hstep : system.step s a = some s')
    : (s.scheduled a s' = [] ∧ s'.retryDelayMs = s.retryDelayMs)
      ∨ (s.scheduled a s' = [s.retryDelayMs] ∧ s'.retryDelayMs = min (s.retryDelayMs * 2) kMaxRetryDelayMs) := by
  obtain ⟨_, hnext⟩ := LTS.guarded_step.mp hstep
  unfold scheduled
  cases backs_next hnext with
  | kept htimers hdelay =>
    rw [htimers, List.drop_length]
    exact .inl ⟨rfl, hdelay⟩
  | doubled htimers hdelay =>
    rw [htimers, List.drop_left]
    exact .inr ⟨rfl, hdelay⟩

/-
The specification in numbers.
-/

theorem law_le (k : Nat) : law k ≤ kMaxRetryDelayMs :=
  Nat.min_le_right _ _

theorem law_succ (k : Nat) : min (law (k + 1) * 2) kMaxRetryDelayMs = law (k + 2) := by
  have hpow : kInitRetryDelayMs * 2 ^ (k + 1) = kInitRetryDelayMs * 2 ^ k * 2 := by
    rw [Nat.pow_succ, Nat.mul_assoc]
  simp only [law, Nat.add_sub_cancel, hpow, show k + 2 - 1 = k + 1 from rfl]
  omega

theorem law_mono {j k : Nat} (h : j ≤ k) : law j ≤ law k := by
  have hpow : 2 ^ (j - 1) ≤ 2 ^ (k - 1) := Nat.pow_le_pow_right (by decide) (Nat.sub_le_sub_right h 1)
  have hmul := Nat.mul_le_mul_left kInitRetryDelayMs hpow
  simp only [law]
  omega

-- the second delay is longer than the first one
theorem law_eq_one_iff (n : Nat) : law (n + 1) = law 1 ↔ n = 0 := by
  constructor
  . intro heq
    by_contra hpos
    have hle : law 2 ≤ law (n + 1) := law_mono (by omega)
    rw [heq] at hle
    exact absurd hle (by decide)
  . rintro rfl
    rfl

/-
The outages of a run.
-/

/--
`delays` are those of the retries that the present outage has scheduled, and `earlier` counts the retries of
the outages before it. The outage ends with the first `restart` behind an established connection; a `start`
behind one belongs to the outage before. An attempt counts when it schedules a retry, so not when `connect`
closes its socket for good.
-/
structure Outage where
  earlier : Nat
  delays : List Nat
  established : Bool
  deriving DecidableEq, Repr

namespace Outage

def first : Outage :=
  ⟨0, [], false⟩

-- the outage to which a step belongs
def ofStep (o : Outage) : Label → Outage
  | .restart _ => if o.established then ⟨o.earlier + o.delays.length, [], false⟩ else o
  | _ => o

def record (o : Outage) (s : Connector) (a : Label) (s' : Connector) : Outage :=
  let o := o.ofStep a
  { o with
      delays := o.delays ++ s.scheduled a s'
      established := o.established || s.handed.length < s'.handed.length }

/--
The property: the delays of the outage are those of the specification, from the first one on.
-/
def Lawful (o : Outage) : Prop :=
  o.delays = (List.range o.delays.length).map fun k => law (k + 1)

-- what the delays are in fact
def Continued (o : Outage) : Prop :=
  o.delays = (List.range o.delays.length).map fun k => law (o.earlier + k + 1)

/--
A `restart` behind an established connection begins no outage after one that has scheduled a retry.
-/
def NoneScheduled (o : Outage) : Label → Prop
  | .restart _ => o.established = true → o.delays = []
  | _ => True

instance (o : Outage) : (a : Label) → Decidable (o.NoneScheduled a)
  | .restart _ => inferInstanceAs (Decidable (_ → _))
  | .start _ | .stop | .handleWrite .. | .handleError | .timer .. | .resetChannel => .isTrue trivial

variable {o : Outage}

theorem Continued.lawful_iff (h : o.Continued) : o.Lawful ↔ o.earlier = 0 ∨ o.delays = [] := by
  constructor
  . intro hlawful
    by_contra hnot
    rw [not_or] at hnot
    unfold Continued at h
    unfold Lawful at hlawful
    rw [hlawful, List.length_map, List.length_range, List.map_inj_left] at h
    have hfirst := h 0 (List.mem_range.mpr (List.length_pos_iff.mpr hnot.2))
    exact hnot.1 ((law_eq_one_iff _).mp hfirst.symm)
  . rintro (hearlier | hnone)
    . unfold Continued at h
      rw [hearlier] at h
      simp only [Nat.zero_add] at h
      exact h
    . unfold Lawful
      rw [hnone]
      rfl

theorem Continued.le (h : o.Continued) : ∀ delay ∈ o.delays, delay ≤ kMaxRetryDelayMs := by
  rw [h]
  intro delay hmem
  obtain ⟨k, _, rfl⟩ := List.mem_map.mp hmem
  apply law_le

theorem Continued.sorted (h : o.Continued) : o.delays.Pairwise (· ≤ ·) := by
  rw [h, List.pairwise_map]
  apply List.Pairwise.imp _ List.pairwise_lt_range
  intro j k hlt
  exact law_mono (by omega)

theorem ofStep_retries (o : Outage) (a : Label)
    : (o.ofStep a).earlier + (o.ofStep a).delays.length = o.earlier + o.delays.length := by
  unfold ofStep
  split
  . split
    . rfl
    . rfl
  . rfl

theorem Continued.ofStep (h : o.Continued) (a : Label) : (o.ofStep a).Continued := by
  unfold Outage.ofStep
  split
  . split
    . rfl
    . exact h
  . exact h

theorem NoneScheduled.ofStep {a : Label} (h : o.NoneScheduled a) (hearlier : o.earlier = 0)
    : (o.ofStep a).earlier = 0 := by
  unfold Outage.ofStep
  split
  . split
    . next hestablished =>
      rw [hearlier, h hestablished]
      rfl
    . exact hearlier
  . exact hearlier

end Outage

def outages : LTS (Recorded Connector Outage) Label :=
  system.recording (fun _ => .first) Outage.record

/--
The delay of the next retry follows on those that have been scheduled.
-/
structure Paced (r : Recorded Connector Outage) : Prop where
  delay : r.state.retryDelayMs = law (r.history.earlier + r.history.delays.length + 1)
  continued : r.history.Continued

theorem Paced.step {r r' : Recorded Connector Outage} (h : Paced r) (hstep : outages.step r a = some r')
    : Paced r' := by
  obtain ⟨hnext, hhistory⟩ := LTS.recording_step.mp hstep
  have hretries := Outage.ofStep_retries r.history a
  have hcontinued := h.continued.ofStep a
  unfold Outage.Continued at hcontinued
  have hdelay := h.delay
  rw [← hretries] at hdelay
  obtain ⟨hnone, hkept⟩ | ⟨hone, hdoubled⟩ := backs_step hnext
  . simp only [Outage.record, hnone, List.append_nil] at hhistory
    refine ⟨?_, ?_⟩
    . rw [hkept, hdelay, hhistory]
    . rw [hhistory]
      exact hcontinued
  . simp only [Outage.record, hone] at hhistory
    refine ⟨?_, ?_⟩
    . rw [hdoubled, hdelay, law_succ, hhistory, List.length_append]
      rfl
    . rw [hhistory, Outage.Continued, List.length_append, List.length_singleton, List.range_succ,
        List.map_append, ← hcontinued, hdelay]
      rfl

theorem paced_reachable {r : Recorded Connector Outage} (h : outages.Reachable r) : Paced r := by
  refine LTS.Reachable.invariant Paced ?_ (fun _ _ _ hpaced hstep => hpaced.step hstep) h
  rintro ⟨s, o⟩ ⟨hinit, hstart⟩
  cases hinit
  cases hstart
  exact ⟨rfl, rfl⟩

theorem earlier_eq_zero {r : Recorded Connector Outage}
    (h : outages.ReachableBy (fun r a => r.history.NoneScheduled a) r) : r.history.earlier = 0 := by
  apply h.invariant fun r => r.history.earlier = 0
  . rintro r ⟨_, hstart⟩
    rw [hstart]
    rfl
  . intro r a r' hearlier hok hstep
    rw [(LTS.recording_step.mp hstep).2]
    exact hok.ofStep hearlier

/--
If no outage follows on one that has scheduled a retry, then every delay is the one of the specification. In
any run that is so for an outage if and only if no retry has been scheduled before it, and the delays never
decrease within one, stay below the maximum, and can be doubled without an overflow.
-/
theorem backoff_lawful (r : Recorded Connector Outage) (h : outages.Reachable r)
    : (outages.ReachableBy (fun r a => r.history.NoneScheduled a) r → r.history.Lawful)
        ∧ (r.history.Lawful ↔ r.history.earlier = 0 ∨ r.history.delays = [])
        ∧ r.history.delays.Pairwise (· ≤ ·) ∧ (∀ delay ∈ r.history.delays, delay ≤ kMaxRetryDelayMs)
        ∧ r.state.retryDelayMs * 2 ≤ INT_MAX := by
  obtain ⟨hdelay, hcontinued⟩ := paced_reachable h
  refine ⟨?_, hcontinued.lawful_iff, hcontinued.sorted, hcontinued.le, ?_⟩
  . intro hok
    exact hcontinued.lawful_iff.mpr (.inl (earlier_eq_zero hok))
  . have hle := law_le (r.history.earlier + r.history.delays.length + 1)
    rw [hdelay]
    unfold kMaxRetryDelayMs at hle
    unfold INT_MAX
    omega

-- two refused attempts, then a connection, which is lost
def refusedTwice : List Label :=
  [.start ECONNREFUSED, .timer 0 ECONNREFUSED]

-- one refused attempt, then a connection, which is lost, and a refused attempt again
def lostAndRefused : List Label :=
  [.start ECONNREFUSED, .timer 0 EINPROGRESS, .handleWrite 0 false, .resetChannel, .restart ECONNREFUSED]

theorem reachable_new : outages.Reachable ⟨new, .first⟩ :=
  .init ⟨rfl, rfl⟩

theorem backoff_lawful_refusedTwice
    : ∃ r, outages.ReachableBy (fun r a => r.history.NoneScheduled a) r ∧ r.history.delays = [500, 1000]
        ∧ r.history.Lawful := by
  have hinit : outages.ReachableBy (fun r a => r.history.NoneScheduled a) ⟨new, .first⟩ := .init ⟨rfl, rfl⟩
  have h : outages.runChecked (fun r a => r.history.NoneScheduled a) ⟨new, .first⟩ refusedTwice = some _ := rfl
  have hreachable := hinit.runChecked (fun _ _ => of_decide_eq_true) h
  exact ⟨_, hreachable, rfl, (backoff_lawful _ hreachable.reachable).1 hreachable⟩

/--
A client that has been refused once, then connected, and lost the connection waits for a second instead of
half a second behind its first failed attempt.
-/
theorem restart_keeps_delay
    : ∃ r, outages.Reachable r ∧ r.history.earlier = 1 ∧ r.history.delays = [1000]
        ∧ law 1 = 500 ∧ ¬r.history.Lawful := by
  have h : outages.run ⟨new, .first⟩ lostAndRefused = some _ := rfl
  refine ⟨_, reachable_new.run h, rfl, rfl, rfl, ?_⟩
  unfold Outage.Lawful
  decide

end Connector

end MyMuduo
