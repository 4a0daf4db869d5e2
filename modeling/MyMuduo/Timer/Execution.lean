import MyMuduo.Timer.Contract

/-!
This module contains the contract of a timer queue over any run of `addTimerInLoop`, `cancelInLoop` and
`handleRead`, with the calls of `handleRead` at any time.
-/

namespace MyMuduo

universe u

variable {φ : Type u}

/--
`getExpired` removes the entries up to `now` from both sets, and nothing else.
-/
def TimerQueue.ExpiresExactly (q : TimerQueue φ) (now : Timestamp) : Prop :=
  ∃ q' expired, q.getExpired now = some (q', expired)
    ∧ (∀ when_ timer, toLex (when_, timer) ∈ expired ↔ toLex (when_, timer) ∈ q.timers ∧ when_ ≤ now)
    ∧ (∀ when_ timer, toLex (when_, timer) ∈ q'.timers ↔ toLex (when_, timer) ∈ q.timers ∧ ¬when_ ≤ now)
    ∧ ∀ timer sequence, toLex (timer, sequence) ∈ q'.activeTimers
        ↔ toLex (timer, sequence) ∈ q.activeTimers ∧ ∀ when_, toLex (when_, timer) ∉ expired

theorem TimerQueue.Owns.expiresExactly {q : TimerQueue φ} {outside : List Addr} (h : q.Owns outside)
    (haddr : q.Addressable) (now : Timestamp) : q.ExpiresExactly now := by
  obtain ⟨q', expired, hexpired⟩ := exists_getExpired h now
  obtain ⟨hexpiry, howns⟩ := getExpired_eq_some h haddr hexpired
  have hmem : ∀ timer t, q.heap timer = some t →
      (timer ∈ addrs expired ↔ timer ∉ outside ∧ t.expiration ≤ now) := by
    intro timer t ht
    simp [mem_addrs, hexpiry.mem, h.timers, ht]
  refine ⟨q', expired, hexpired, hexpiry.mem, ?_, ?_⟩
  . intro when_ timer
    rw [howns.timers, h.timers, hexpiry.heap]
    constructor
    . rintro ⟨t, ht, rfl, hnotMem⟩
      rw [List.mem_append, hmem timer t ht] at hnotMem
      exact ⟨⟨t, ht, rfl, by tauto⟩, by tauto⟩
    . rintro ⟨⟨t, ht, rfl, hnotMem⟩, hlate⟩
      refine ⟨t, ht, rfl, ?_⟩
      rw [List.mem_append, hmem timer t ht]
      tauto
  . intro timer sequence
    rw [howns.activeTimers, h.activeTimers, hexpiry.heap, ← not_exists, ← mem_addrs]
    constructor
    . rintro ⟨t, ht, rfl, hnotMem⟩
      rw [List.mem_append] at hnotMem
      exact ⟨⟨t, ht, rfl, by tauto⟩, by tauto⟩
    . rintro ⟨⟨t, ht, rfl, hnotMem⟩, hkept⟩
      refine ⟨t, ht, rfl, ?_⟩
      rw [List.mem_append]
      tauto

namespace TimerLoop

open TimerQueue

variable {s s' : TimerLoop φ} {a : Label φ} {timer : Addr} {t : Timer φ} {n : Nat}

-- the timer that a step puts into the sets for the first time
def inserts (s : TimerLoop φ) : Label φ → Option Addr
  | .addTimer timer .. => some timer
  | .addTimerInLoop => s.queued.head?
  | _ => none

-- how often the call with the number `i` has run the timer
def callbacks (s : TimerLoop φ) (i sequence : Nat) : Nat :=
  ((s.runsIn i).filter fun r => r.sequence == sequence).length

/--
The call with the number `i` runs the timer if it is due: once when the call has returned, and not more than
once before.
-/
structure RunsOnce (s : TimerLoop φ) (i sequence : Nat) (due : Prop) : Prop where
  le : s.callbacks i sequence ≤ 1
  early : ¬due → s.callbacks i sequence = 0
  ended : due → i < s.ended.length → s.callbacks i sequence = 1

/--
A one-shot timer, inserted in front of the call with the number `n`: it is run by the first call whose `now`
has reached its expiration.
-/
def OneShot (s : TimerLoop φ) (t : Timer φ) (n : Nat) : Prop :=
  ∀ i start, n ≤ i → s.starts[i]? = some start →
    s.RunsOnce i t.sequence
      (t.expiration ≤ Timestamp.now start
        ∧ ∀ j start', n ≤ j → j < i → s.starts[j]? = some start' → Timestamp.now start' < t.expiration)

/--
A timer with an interval of `k` microseconds, where `expiration i` is its expiration in front of the call
with the number `i`.
-/
def Repeating (s : TimerLoop φ) (timer : Addr) (t : Timer φ) (n : Nat) (k : Int) : Prop :=
  ∃ expiration : Nat → Timestamp, expiration n = t.expiration
    ∧ (∀ i start, n ≤ i → s.starts[i]? = some start →
        s.RunsOnce i t.sequence (expiration i ≤ Timestamp.now start)
          ∧ expiration (i + 1) =
            if expiration i ≤ Timestamp.now start then Timestamp.now start + k else expiration i)
    ∧ (s.frame = none → n ≤ s.ended.length
        ∧ s.queue.heap timer = some { t with expiration := expiration s.ended.length }
        ∧ toLex (expiration s.ended.length, timer) ∈ s.queue.timers)

structure InContract (s : TimerLoop φ) (timer : Addr) (t : Timer φ) (n : Nat) : Prop where
  reads : ∀ r ∈ s.ran, r.sequence = t.sequence → n ≤ r.read ∧ r.read < s.starts.length
  oneShot : t.repeat_ = false → s.OneShot t n
  repeating : t.repeat_ = true →
    ∀ k : Int, t.interval * Timestamp.kMicroSecondsPerSecond = k → s.Repeating timer t n k

-- `handleRead` never stops at a timer that is deleted
structure Proceeds (s : TimerLoop φ) : Prop where
  handleRead : s.frame = none → ∃ s', (anyTime φ).step s .handleRead = some s'
  run : ∀ f, s.frame = some f → f.running = false → f.todo ≠ [] → ∃ s', (anyTime φ).step s .run = some s'
  reset : ∀ f, s.frame = some f → f.running = false → f.todo = [] → ∃ s', (anyTime φ).step s .reset = some s'

theorem Inv.proceeds (h : s.Inv) : s.Proceeds := by
  constructor
  . intro hf
    obtain ⟨s', hnext⟩ := h.exists_next_handleRead
    exact ⟨s', LTS.guarded_step.mpr ⟨by simp [enabledAnyTime, hf], hnext⟩⟩
  . intro f hf hrunning htodo
    obtain ⟨s', hnext⟩ := h.exists_next_run hf htodo
    exact ⟨s', LTS.guarded_step.mpr ⟨by simp [enabledAnyTime, enabled, hf, hrunning], hnext⟩⟩
  . intro f hf hrunning htodo
    obtain ⟨s', hnext⟩ := h.exists_next_reset hf
    exact ⟨s', LTS.guarded_step.mpr ⟨by simp [enabledAnyTime, enabled, hf, hrunning, htodo], hnext⟩⟩

theorem follows_inserted (hinv : s.Inv) (hlog : s.Log) (hsteps : Steps s a s')
    (hinserts : s.inserts a = some timer) (ht : s'.queue.heap timer = some t)
    : s'.Began s'.starts.length ∧ s'.Follows timer t s'.starts.length := by
  have hended : s'.ended.length ≤ s'.starts.length := by
    unfold starts
    rw [List.length_append]
    exact Nat.le_add_right _ _
  have hdrop : s'.ended.drop s'.starts.length = [] := List.drop_of_length_le hended
  have hbegan : s'.Began s'.starts.length := by
    constructor
    . cases hf : s'.frame with
      | none =>
        rw [length_starts_of_none hf]
        exact Nat.le_succ _
      | some f => exact Nat.le_of_eq (length_starts_of_some hf)
    . intro hf
      exact Nat.le_of_eq (length_starts_of_none hf)
  have hinSets : timer ∉ addrs s'.batch ++ s'.queued → (∀ r ∈ s'.ran, r.sequence ≠ t.sequence) →
      s'.Follows timer t s'.starts.length := by
    intro hnotMem hfresh
    refine .inl ⟨t.expiration, ?_, ht, hnotMem, ?_, ?_⟩
    . rw [expirationNow, hdrop]
      rfl
    . intro f hf hle
      rw [length_starts_of_some hf] at hle
      omega
    . rw [fired, hdrop, runsOf, Timer.firings, List.filter_eq_nil_iff]
      intro r hr
      simpa using hfresh r hr
  refine ⟨hbegan, ?_⟩
  cases hsteps with
  | addTimer b cb when_ interval t' queue _ halloc ht' hsame =>
    simp only [inserts, Option.some.injEq] at hinserts
    subst hinserts
    have hself : queue.heap b = some t' := by
      rw [hsame.heap]
      exact Function.update_self ..
    rw [hself, Option.some.injEq] at ht
    subst ht
    apply hinSets
    . intro hmem
      obtain ⟨t, hlive⟩ := hinv.owns.live b hmem
      simp [(allocates_iff.mp halloc).1] at hlive
    . intro r hr
      have hle := hinv.ranNumbered r hr
      have hsequence : t'.sequence = s.queue.numCreated + 1 := ht' ▸ rfl
      omega
  | addTimerInLoop b t' queued queue hframe hqueued hlive hsame =>
    rw [inserts, hqueued, List.head?_cons, Option.some.injEq] at hinserts
    subst hinserts
    have hself : queue.heap b = some t' := by
      rw [hsame.heap]
      exact hlive
    rw [hself, Option.some.injEq] at ht
    subst ht
    apply hinSets
    . have howns := hinv.owns.nodup
      rw [batch_of_none hframe, hqueued] at howns
      have hnotMem : b ∉ queued := (List.nodup_cons.mp howns).1
      change b ∉ addrs s.batch ++ queued
      rw [batch_of_none hframe]
      exact hnotMem
    . exact hlog.queued b (hqueued ▸ List.mem_cons_self) t' hlive
  | _ => cases hinserts

-- the schedule's expiration in front of the call with the number `i`
def expirationAt (s : TimerLoop φ) (t : Timer φ) (n i : Nat) : Option Timestamp :=
  t.expirationAfter (some t.expiration) ((s.starts.drop n).take (i - n))

def IsDue (e : Option Timestamp) (start : Int) : Prop :=
  ∃ when_, e = some when_ ∧ when_ ≤ Timestamp.now start

theorem length_fire (t : Timer φ) (i : Nat) (start : Int) (e : Option Timestamp)
    : (t.fire i start e).length ≤ 1 ∧ (IsDue e start → (t.fire i start e).length = 1)
        ∧ (¬IsDue e start → t.fire i start e = []) := by
  unfold IsDue Timer.fire
  cases e with
  | none => simp
  | some when_ =>
    dsimp only
    split
    . next hdue => simp [hdue]
    . next hearly => simp [not_le.mp hearly]

theorem callbacks_eq (s : TimerLoop φ) (i sequence : Nat)
    : s.callbacks i sequence = ((s.runsOf sequence).filter fun r => r.read == i).length := by
  unfold callbacks runsIn runsOf
  rw [List.filter_filter, List.filter_filter]
  simp only [Bool.and_comm]

theorem starts_of_ended {i : Nat} (hi : i < s.ended.length) : s.starts[i]? = s.ended[i]? := by
  unfold starts
  rw [List.getElem?_append_left hi]

theorem expirationAt_of_ended {i : Nat} (hn : n ≤ i) (hi : i ≤ s.ended.length)
    : s.expirationAt t n i = t.expirationAfter (some t.expiration) ((s.ended.drop n).take (i - n)) := by
  have htake : (s.starts.drop n).take (i - n) = (s.ended.drop n).take (i - n) := by
    unfold starts
    rw [List.drop_append_of_le_length (Nat.le_trans hn hi), List.take_append_of_le_length]
    rw [List.length_drop]
    omega
  rw [expirationAt, htake]

-- the runs that the schedule has for a call that has returned
theorem filter_fired {i : Nat} {start : Int} (hn : n ≤ i) (hi : i < s.ended.length)
    (hstart : s.starts[i]? = some start)
    : (s.fired t n).filter (fun r => r.read == i) = t.fire i start (s.expirationAt t n i) := by
  have hget : (s.ended.drop n)[i - n]? = some start := by
    rw [List.getElem?_drop, Nat.add_sub_cancel' hn, ← starts_of_ended hi]
    exact hstart
  have hfilter := t.filter_firings n (i - n) (some t.expiration) (s.ended.drop n)
  rw [Nat.add_sub_cancel' hn, hget, Option.map_some, Option.getD_some] at hfilter
  rw [fired, hfilter, expirationAt_of_ended hn (Nat.le_of_lt hi)]

theorem filter_fired_of_ge {i : Nat} (hn : n ≤ i) (hi : s.ended.length ≤ i)
    : (s.fired t n).filter (fun r => r.read == i) = [] := by
  apply List.filter_eq_nil_iff.mpr
  intro r hr
  have hlt := (Timer.read_of_mem_firings hr).2
  rw [List.length_drop] at hlt
  simp only [beq_iff_eq]
  omega

/--
What the schedule and the batch in progress say about the callbacks of a call.
-/
theorem Follows.runsOf_eq (h : s.Follows timer t n) (hbatch : s.Batch)
    : ∃ running, s.runsOf t.sequence = s.fired t n ++ running
        ∧ (running = [] ∨ ∃ f, s.frame = some f ∧ n ≤ s.ended.length
          ∧ IsDue (s.expirationNow t n) f.start
          ∧ running = t.fire s.ended.length f.start (s.expirationNow t n)) := by
  obtain ⟨_, hsets⟩ | ⟨when_, f, hinBatch⟩ | hdeleted := h
  . exact ⟨[], by rw [hsets.runs, List.append_nil], .inl rfl⟩
  . refine ⟨_, hinBatch.runs, ?_⟩
    split
    . exact .inl rfl
    . refine .inr ⟨f, hinBatch.frame, hinBatch.began, ?_, by rw [hinBatch.expiration]⟩
      exact ⟨when_, hinBatch.expiration, hbatch.now f hinBatch.frame ▸ hinBatch.due⟩
  . exact ⟨[], by rw [hdeleted.runs, List.append_nil], .inl rfl⟩

theorem Follows.runsOnce (h : s.Follows timer t n) (hbatch : s.Batch) {i : Nat} {start : Int} (hn : n ≤ i)
    (hstart : s.starts[i]? = some start)
    : s.RunsOnce i t.sequence (IsDue (s.expirationAt t n i) start) := by
  obtain ⟨running, hruns, hrunning⟩ := h.runsOf_eq hbatch
  have hcallbacks := s.callbacks_eq i t.sequence
  rw [hruns, List.filter_append] at hcallbacks
  by_cases hi : i < s.ended.length
  . have hother : running.filter (fun r => r.read == i) = [] := by
      apply List.filter_eq_nil_iff.mpr
      intro r hr
      cases hrunning with
      | inl hnil =>
        rw [hnil] at hr
        cases hr
      | inr hframe =>
        obtain ⟨f, _, _, _, hfire⟩ := hframe
        rw [hfire] at hr
        rw [(Timer.mem_fire hr).1]
        simp only [beq_iff_eq]
        omega
    rw [hother, List.append_nil, filter_fired hn hi hstart] at hcallbacks
    obtain ⟨hle, hdue, hearly⟩ := length_fire t i start (s.expirationAt t n i)
    refine ⟨hcallbacks ▸ hle, ?_, fun h _ => hcallbacks ▸ hdue h⟩
    intro h
    rw [hcallbacks, hearly h, List.length_nil]
  . -- the call in progress
    rw [filter_fired_of_ge hn (Nat.le_of_not_lt hi), List.nil_append] at hcallbacks
    have hrunning_le : (running.filter fun r => r.read == i).length ≤ running.length :=
      List.length_filter_le _ _
    refine ⟨?_, ?_, fun _ hlt => absurd hlt hi⟩
    . cases hrunning with
      | inl hnil => simp [hcallbacks, hnil]
      | inr hframe =>
        obtain ⟨f, _, _, _, hfire⟩ := hframe
        have hle := (length_fire t s.ended.length f.start (s.expirationNow t n)).1
        rw [← hfire] at hle
        omega
    . intro hearly
      cases hrunning with
      | inl hnil => simp [hcallbacks, hnil]
      | inr hframe =>
        obtain ⟨f, hf, hbegan, hdue, _⟩ := hframe
        have hlt := (List.getElem?_eq_some_iff.mp hstart).1
        rw [length_starts_of_some hf] at hlt
        have heq : i = s.ended.length := by omega
        have hlast : f.start = start := by
          simpa [starts, hf, heq] using hstart
        have hnow : s.expirationAt t n i = s.expirationNow t n := by
          rw [expirationAt_of_ended hn (Nat.le_of_eq heq), List.take_of_length_le]
          . rfl
          . rw [List.length_drop]
            omega
        exact absurd (hnow ▸ hlast ▸ hdue) hearly

theorem Follows.reads (h : s.Follows timer t n) (hbatch : s.Batch) (hlog : s.Log)
    : ∀ r ∈ s.ran, r.sequence = t.sequence → n ≤ r.read ∧ r.read < s.starts.length := by
  intro r hr hsequence
  refine ⟨?_, hlog.reads r hr⟩
  obtain ⟨running, hruns, hrunning⟩ := h.runsOf_eq hbatch
  have hmem : r ∈ s.runsOf t.sequence := by
    simpa [runsOf] using ⟨hr, hsequence⟩
  rw [hruns, List.mem_append] at hmem
  cases hmem with
  | inl hfired => exact (Timer.read_of_mem_firings hfired).1
  | inr hmem =>
    cases hrunning with
    | inl hnil =>
      rw [hnil] at hmem
      cases hmem
    | inr hframe =>
      obtain ⟨f, _, hbegan, _, hfire⟩ := hframe
      rw [hfire] at hmem
      rw [(Timer.mem_fire hmem).1]
      exact hbegan

theorem RunsOnce.congr {i sequence : Nat} {due due' : Prop} (h : s.RunsOnce i sequence due) (hiff : due ↔ due')
    : s.RunsOnce i sequence due' :=
  ⟨h.le, fun hnot => h.early (hiff.not.mpr hnot), fun hdue => h.ended (hiff.mpr hdue)⟩

theorem mem_take_drop {l : List Int} {i : Nat} {x : Int} (hn : n ≤ i)
    : x ∈ (l.drop n).take (i - n) ↔ ∃ j, n ≤ j ∧ j < i ∧ l[j]? = some x := by
  rw [List.mem_iff_getElem?]
  constructor
  . rintro ⟨j, hj⟩
    rw [List.getElem?_take] at hj
    split at hj
    . next hlt =>
      rw [List.getElem?_drop] at hj
      exact ⟨n + j, by omega, by omega, hj⟩
    . cases hj
  . rintro ⟨j, hle, hlt, hj⟩
    refine ⟨j - n, ?_⟩
    rw [List.getElem?_take, if_pos (by omega), List.getElem?_drop, Nat.add_sub_cancel' hle]
    exact hj

theorem Follows.oneShot (h : s.Follows timer t n) (hbatch : s.Batch) (ht : t.repeat_ = false)
    : s.OneShot t n := by
  intro i start hn hstart
  apply (h.runsOnce hbatch hn hstart).congr
  rw [expirationAt, Timer.expirationAfter_oneShot ht]
  unfold IsDue
  constructor
  . rintro ⟨when_, hwhen, hdue⟩
    split at hwhen
    . next hearly =>
      rw [Option.some.injEq] at hwhen
      subst hwhen
      exact ⟨hdue, fun j start' hle hlt hj => hearly start' ((mem_take_drop hn).mpr ⟨j, hle, hlt, hj⟩)⟩
    . cases hwhen
  . rintro ⟨hdue, hearly⟩
    refine ⟨t.expiration, if_pos ?_, hdue⟩
    intro start' hmem
    obtain ⟨j, hle, hlt, hj⟩ := (mem_take_drop hn).mp hmem
    exact hearly j start' hle hlt hj

theorem expirationAt_succ {i : Nat} {start : Int} (hn : n ≤ i) (hstart : s.starts[i]? = some start)
    : s.expirationAt t n (i + 1) = t.scheduled start (s.expirationAt t n i) := by
  have hget : (s.starts.drop n)[i - n]? = some start := by
    rw [List.getElem?_drop, Nat.add_sub_cancel' hn]
    exact hstart
  rw [expirationAt, Nat.sub_add_comm hn, List.take_add_one, hget, Option.toList_some,
    Timer.expirationAfter_append]
  rfl

theorem isSome_expirationAt (ht : t.repeat_ = true) {k : Int}
    (hk : t.interval * Timestamp.kMicroSecondsPerSecond = k) (i : Nat)
    : ∃ when_, s.expirationAt t n i = some when_ := by
  have hafter : ∀ (starts : List Int) (when_ : Timestamp),
      ∃ when_', t.expirationAfter (some when_) starts = some when_' := by
    intro starts
    induction starts with
    | nil => exact fun when_ => ⟨when_, rfl⟩
    | cons start starts ih =>
      intro when_
      rw [Timer.expirationAfter, Timer.scheduled_repeat ht hk]
      exact ih _
  exact hafter _ _

theorem Follows.repeating (h : s.Follows timer t n) (hbegan : s.Began n) (hinv : s.Inv) (hbatch : s.Batch)
    (ht : t.repeat_ = true) {k : Int} (hk : t.interval * Timestamp.kMicroSecondsPerSecond = k)
    : s.Repeating timer t n k := by
  have hexpiration : ∀ i, s.expirationAt t n i = some ((s.expirationAt t n i).getD 0) := by
    intro i
    obtain ⟨when_, hwhen⟩ := isSome_expirationAt (s := s) (n := n) ht hk i
    rw [hwhen, Option.getD_some]
  refine ⟨fun i => (s.expirationAt t n i).getD 0, ?_, ?_, ?_⟩
  . simp [expirationAt, Timer.expirationAfter]
  . intro i start hn hstart
    dsimp only
    constructor
    . apply (h.runsOnce hbatch hn hstart).congr
      rw [hexpiration i]
      simp [IsDue]
    . have hnext := expirationAt_succ (t := t) hn hstart
      rw [hexpiration i, Timer.scheduled_repeat ht hk] at hnext
      rw [hnext, Option.getD_some]
  . intro hf
    have hle := hbegan.ended hf
    have hnow : s.expirationNow t n = s.expirationAt t n s.ended.length := by
      rw [expirationAt_of_ended hle (Nat.le_refl _), List.take_of_length_le]
      . rfl
      . rw [List.length_drop]
    rw [hexpiration] at hnow
    obtain ⟨when_, hsets⟩ | ⟨_, f, hinBatch⟩ | hdeleted := h
    . have hwhen := hsets.expiration
      rw [hnow, Option.some.injEq] at hwhen
      dsimp only
      rw [hwhen]
      exact ⟨hle, hsets.live, (hinv.owns.timers _ _).mpr ⟨_, hsets.live, rfl, hsets.notMem⟩⟩
    . have hframe := hinBatch.frame
      rw [hf] at hframe
      cases hframe
    . have hgone := hdeleted.expiration
      rw [hnow] at hgone
      cases hgone

/--
In every run, whenever `handleRead` is called: `getExpired` cuts the sets at its `now`, the callbacks of one
call are in the order of their expirations, and a timer that is not cancelled behind its insertion is run
when it is due and not otherwise.
-/
theorem execution_contract {s : TimerLoop φ} (hs : (anyTime φ).Reachable s)
    : (∀ now, s.queue.ExpiresExactly now)
        ∧ (∀ i, ((s.runsIn i).map (·.expiration)).Pairwise (· ≤ ·))
        ∧ s.Proceeds
        ∧ ∀ (a : Label φ) (s₁ s₂ : TimerLoop φ) (timer : Addr) (t : Timer φ) (as : List (Label φ)),
          (anyTime φ).step s a = some s₁ → s.inserts a = some timer → s₁.queue.heap timer = some t →
          .cancel ⟨timer, t.sequence⟩ ∉ as → (anyTime φ).run s₁ as = some s₂ →
          s₂.InContract timer t s₁.starts.length := by
  obtain ⟨hinv, hbatch, hlog⟩ := batch_reachable hs
  refine ⟨hinv.owns.expiresExactly hinv.addressable, hlog.ordered, hinv.proceeds, ?_⟩
  intro a s₁ s₂ timer t as hstep hinserts ht hcancel hrun
  have hs₁ : (anyTime φ).Reachable s₁ := .step hs trivial hstep
  obtain ⟨hbegan₁, hfollows₁⟩ := follows_inserted hinv hlog (hinv.steps_anyTime hstep) hinserts ht
  obtain ⟨hbegan, hfollows⟩ := hfollows₁.run hs₁ hbegan₁ hcancel hrun
  obtain ⟨hinv₂, hbatch₂, hlog₂⟩ := batch_reachable (hs₁.run hrun)
  refine ⟨hfollows.reads hbatch₂ hlog₂, hfollows.oneShot hbatch₂, ?_⟩
  intro hrepeat k hk
  exact hfollows.repeating hbegan hinv₂ hbatch₂ hrepeat hk

-- a timer that expires at 5, and calls that see the times 4, 5 and 5
def insertedAtZero : TimerLoop Unit :=
  ((anyTime Unit).step (new 0) (.addTimer 1 () 5 0)).get rfl

def threeCalls : List (Label Unit) :=
  [.tick 4000000, .handleRead, .reset, .tick 1000000, .handleRead, .run, .return_, .reset, .handleRead,
    .reset]

def afterThreeCalls : TimerLoop Unit :=
  ((anyTime Unit).run insertedAtZero threeCalls).get rfl

theorem execution_contract_three_calls
    : (anyTime Unit).run insertedAtZero threeCalls = some afterThreeCalls
        ∧ afterThreeCalls.callbacks 0 1 = 0 ∧ afterThreeCalls.callbacks 1 1 = 1
        ∧ afterThreeCalls.callbacks 2 1 = 0 := by
  have hstep : (anyTime Unit).step (new 0) (.addTimer 1 () 5 0) = some insertedAtZero :=
    (Option.some_get _).symm
  have hrun : (anyTime Unit).run insertedAtZero threeCalls = some afterThreeCalls :=
    (Option.some_get _).symm
  have hnew : (anyTime Unit).Reachable (new 0) := .init ⟨0, rfl⟩
  have hcontract := (execution_contract hnew).2.2.2 _ _ _ 1 _ _ hstep rfl rfl (by simp [threeCalls]) hrun
  have honce := hcontract.oneShot rfl
  have hearly := honce 0 4000000 (Nat.le_refl _) rfl
  have hdue := honce 1 5000000 (Nat.zero_le _) rfl
  have hlate := honce 2 5000000 (Nat.zero_le _) rfl
  refine ⟨hrun, hearly.early ?_, hdue.ended ?_ (by decide), hlate.early ?_⟩
  . intro hfirst
    exact absurd hfirst.1 (by decide)
  . refine ⟨by decide, ?_⟩
    intro j start _ hj hstart
    have hj : j = 0 := Nat.lt_one_iff.mp hj
    subst hj
    have hstart : (4000000 : Int) = start := Option.some.inj hstart
    subst hstart
    decide
  . intro hfirst
    have hsecond := hfirst.2 1 5000000 (Nat.zero_le _) (by decide) rfl
    exact absurd hsecond (by decide)

end TimerLoop

end MyMuduo
