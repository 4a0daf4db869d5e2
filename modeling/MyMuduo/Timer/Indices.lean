import MyMuduo.Timer.Invariant

/-!
This module contains that the two sets of a timer queue agree, that every timer has one owner, and which
timers a step deletes.
-/

namespace MyMuduo

universe u

variable {φ : Type u}

namespace TimerQueue

variable {q q' : TimerQueue φ} {outside : List Addr}

-- the calls of `delete` in the loop of `reset`
def resetDeletes (q : TimerQueue φ) (now : Timestamp) : List Entry → List Addr
  | [] => []
  | it :: expired =>
    match q.heap (ofLex it).2 with
    | none => []
    | some t =>
      if t.repeat_ && toLex ((ofLex it).2, t.sequence) ∉ q.cancelingTimers then
        let q := { q with heap := Function.update q.heap (ofLex it).2 (some (t.restart now)) }
        match q.insert (ofLex it).2 with
        | none => []
        | some (q, _) => resetDeletes q now expired
      else
        (ofLex it).2 :: resetDeletes (q.freed (ofLex it).2) now expired

-- `reset` does not put the timer into the sets again
def discards (q : TimerQueue φ) (timer : Addr) : Bool :=
  (q.heap timer).any fun t => !(t.repeat_ && toLex (timer, t.sequence) ∉ q.cancelingTimers)

theorem filter_discards_congr {timers : List Addr} (hcanceling : q'.cancelingTimers = q.cancelingTimers)
    (hheap : ∀ timer ∈ timers, q'.heap timer = q.heap timer)
    : timers.filter q'.discards = timers.filter q.discards := by
  apply List.filter_congr
  intro timer hmem
  unfold discards
  rw [hheap timer hmem, hcanceling]

theorem resetDeletes_eq {now : Timestamp} {expired : List Entry} (howns : q.Owns (addrs expired ++ outside))
    : q.resetDeletes now expired = (addrs expired).filter q.discards := by
  induction expired generalizing q with
  | nil => rfl
  | cons it expired ih =>
    have howns : q.Owns ((ofLex it).2 :: (addrs expired ++ outside)) := howns
    obtain ⟨t, ht⟩ := howns.live _ List.mem_cons_self
    have hne : ∀ timer ∈ addrs expired, timer ≠ (ofLex it).2 := by
      rintro _ hmem rfl
      exact (List.nodup_cons.mp howns.nodup).1 (List.mem_append_left _ hmem)
    have haddrs : addrs (it :: expired) = (ofLex it).2 :: addrs expired := rfl
    simp only [resetDeletes, ht, haddrs, List.filter_cons]
    split
    . next hrepeat =>
      have hrestarted : Function.update q.heap (ofLex it).2 (some (t.restart now)) (ofLex it).2 =
          some (t.restart now) := Function.update_self ..
      have hupdated := howns.updated List.mem_cons_self (t.restart now)
      obtain ⟨_, hinsert⟩ := insert_eq_some
        (q := { q with heap := Function.update q.heap (ofLex it).2 (some (t.restart now)) }) hrestarted
      have hkept : q.discards (ofLex it).2 = false := by
        simp only [discards, ht, Option.any_some, hrepeat, Bool.not_true]
      rw [hinsert, hkept, if_neg Bool.false_ne_true]
      dsimp only
      rw [ih (hupdated.inserted hrestarted)]
      refine filter_discards_congr ?_ ?_
      . rfl
      . intro timer hmem
        exact Function.update_of_ne (hne timer hmem) ..
    . next hrepeat =>
      have hdiscarded : q.discards (ofLex it).2 = true := by
        simp only [discards, ht, Option.any_some, hrepeat, Bool.not_false]
      rw [hdiscarded, if_pos rfl, ih howns.freed]
      congr 1
      refine filter_discards_congr ?_ ?_
      . rfl
      . intro timer hmem
        exact Function.update_of_ne (hne timer hmem) ..

theorem renewed_eq_none_iff {now : Timestamp} {timer : Addr}
    : (q.heap timer).bind (q.renewed now timer) = none ↔ q.heap timer = none ∨ q.discards timer = true := by
  unfold discards renewed
  cases ht : q.heap timer with
  | none => simp
  | some t =>
    simp only [Option.bind_some, Option.any_some, Bool.not_eq_true', reduceCtorEq, false_or]
    split
    . next hrepeat => simpa using hrepeat
    . next hrepeat => simpa using hrepeat

end TimerQueue

namespace TimerLoop

open TimerQueue

variable {s s' : TimerLoop φ} {a : Label φ}

/--
The entries of `timers_` are those of `activeTimers_`, with the expiration that the timer has.
-/
structure Indexed (s : TimerLoop φ) : Prop where
  timers : ∀ when_ timer, toLex (when_, timer) ∈ s.queue.timers ↔
    ∃ t, s.queue.heap timer = some t ∧ t.expiration = when_ ∧ toLex (timer, t.sequence) ∈ s.queue.activeTimers
  activeTimers : ∀ timer sequence, toLex (timer, sequence) ∈ s.queue.activeTimers →
    ∃ t, s.queue.heap timer = some t ∧ t.sequence = sequence
  unique : ∀ when_ when_' timer, toLex (when_, timer) ∈ s.queue.timers →
    toLex (when_', timer) ∈ s.queue.timers → when_ = when_'

def InTimers (s : TimerLoop φ) (timer : Addr) : Prop :=
  ∃ when_, toLex (when_, timer) ∈ s.queue.timers

/--
A timer lives as long as it is in `timers_`, in the batch in progress, or held by the functor that is to
insert it, and it is in one of these places only.
-/
structure OwnedOnce (s : TimerLoop φ) : Prop where
  live : ∀ timer, (∃ t, s.queue.heap timer = some t) ↔
    s.InTimers timer ∨ timer ∈ addrs s.batch ∨ timer ∈ s.queued
  timers : ∀ timer, s.InTimers timer → timer ∉ addrs s.batch ∧ timer ∉ s.queued
  batch : ∀ timer ∈ addrs s.batch, timer ∉ s.queued
  nodup : (addrs s.batch).Nodup ∧ s.queued.Nodup

theorem Inv.indexed (h : s.Inv) : s.Indexed := by
  refine ⟨?_, ?_, ?_⟩
  . intro when_ timer
    simp only [h.owns.timers, h.owns.activeTimers]
    constructor
    . rintro ⟨t, ht, hwhen, hnotMem⟩
      exact ⟨t, ht, hwhen, t, ht, rfl, hnotMem⟩
    . rintro ⟨t, ht, hwhen, _, _, _, hnotMem⟩
      exact ⟨t, ht, hwhen, hnotMem⟩
  . intro timer sequence hmem
    obtain ⟨t, ht, hsequence, _⟩ := (h.owns.activeTimers timer sequence).mp hmem
    exact ⟨t, ht, hsequence⟩
  . intro when_ when_' timer hmem hmem'
    obtain ⟨t, ht, rfl, _⟩ := (h.owns.timers when_ timer).mp hmem
    obtain ⟨t', ht', rfl, _⟩ := (h.owns.timers when_' timer).mp hmem'
    rw [ht, Option.some.injEq] at ht'
    rw [ht']

theorem Inv.inTimers_iff (h : s.Inv) {timer : Addr}
    : s.InTimers timer ↔ (∃ t, s.queue.heap timer = some t) ∧ timer ∉ addrs s.batch ++ s.queued := by
  unfold InTimers
  simp only [h.owns.timers]
  constructor
  . rintro ⟨when_, t, ht, _, hnotMem⟩
    exact ⟨⟨t, ht⟩, hnotMem⟩
  . rintro ⟨⟨t, ht⟩, hnotMem⟩
    exact ⟨t.expiration, t, ht, rfl, hnotMem⟩

theorem Inv.ownedOnce (h : s.Inv) : s.OwnedOnce := by
  obtain ⟨hbatch, hqueued, hdisjoint⟩ := List.nodup_append.mp h.owns.nodup
  refine ⟨?_, ?_, ?_, hbatch, hqueued⟩
  . intro timer
    rw [h.inTimers_iff, ← List.mem_append]
    constructor
    . intro hlive
      by_cases hmem : timer ∈ addrs s.batch ++ s.queued
      . exact .inr hmem
      . exact .inl ⟨hlive, hmem⟩
    . intro howned
      cases howned with
      | inl htimers => exact htimers.1
      | inr hmem => exact h.owns.live timer hmem
  . intro timer htimers
    have hnotMem := (h.inTimers_iff.mp htimers).2
    rw [List.mem_append, not_or] at hnotMem
    exact hnotMem
  . intro timer hmem hqueued
    exact hdisjoint timer hmem timer hqueued rfl

-- the calls of `delete` in a step
def deletes (s : TimerLoop φ) : Label φ → List Addr
  | .cancel timerId =>
    if toLex (timerId.timer, timerId.sequence) ∈ s.queue.activeTimers then [timerId.timer] else []
  | .reset =>
    match s.frame with
    | none => []
    | some f => { s.queue with callingExpiredTimers := false }.resetDeletes f.now f.expired
  | _ => []

/--
The step deletes live timers, each once, and every other timer lives on.
-/
structure DeletesOnce (s s' : TimerLoop φ) (timers : List Addr) : Prop where
  nodup : timers.Nodup
  live : ∀ timer ∈ timers, ∃ t, s.queue.heap timer = some t
  deleted : ∀ timer ∈ timers, s'.queue.heap timer = none
  others : ∀ timer t, s.queue.heap timer = some t → timer ∉ timers →
    ∃ t', s'.queue.heap timer = some t' ∧ t'.sequence = t.sequence

theorem DeletesOnce.nothing (h : ∀ timer t, s.queue.heap timer = some t → s'.queue.heap timer = some t)
    : DeletesOnce s s' [] := by
  refine ⟨.nil, ?_, ?_, ?_⟩
  . intro timer hmem
    cases hmem
  . intro timer hmem
    cases hmem
  . intro timer t ht _
    exact ⟨t, h timer t ht, rfl⟩

theorem Inv.deletesOnce_reset {f : HandleRead} {queue : TimerQueue φ} (h : s.Inv) (hf : s.frame = some f)
    (hrenewed : Renewed { s.queue with callingExpiredTimers := false } queue f.now f.expired)
    : DeletesOnce s { s with queue := queue, frame := none, ended := s.ended ++ [f.start] } (s.deletes .reset) := by
  have howns : { s.queue with callingExpiredTimers := false }.Owns (addrs f.expired ++ s.queued) :=
    (batch_of_some hf ▸ h.owns).congr rfl rfl rfl
  have hdeletes : s.deletes .reset
      = (addrs f.expired).filter { s.queue with callingExpiredTimers := false }.discards := by
    rw [← resetDeletes_eq howns, deletes, hf]
  rw [hdeletes]
  refine ⟨(List.nodup_append.mp howns.nodup).1.filter _, ?_, ?_, ?_⟩
  . intro timer hmem
    exact howns.live timer (List.mem_append_left _ (List.mem_filter.mp hmem).1)
  . intro timer hmem
    obtain ⟨hbatch, hdiscarded⟩ := List.mem_filter.mp hmem
    exact (hrenewed.batch timer hbatch).trans (renewed_eq_none_iff.mpr (.inr hdiscarded))
  . intro timer t ht hnotMem
    by_cases hbatch : timer ∈ addrs f.expired
    . have hrenew := hrenewed.batch timer hbatch
      simp only [ht, Option.bind_some, renewed] at hrenew
      split at hrenew
      . exact ⟨_, hrenew, t.sequence_restart _⟩
      . next hrepeat =>
        refine absurd (List.mem_filter.mpr ⟨hbatch, ?_⟩) hnotMem
        simp only [discards, ht, Option.any_some, Bool.not_eq_true']
        exact Bool.eq_false_of_not_eq_true hrepeat
    . exact ⟨t, (hrenewed.others timer hbatch).trans ht, rfl⟩

theorem Inv.deletesOnce (h : s.Inv) (hsteps : Steps s a s') : DeletesOnce s s' (s.deletes a) := by
  have hkept : (∀ timerId, a ≠ .cancel timerId) → a ≠ .reset →
      ∀ timer t, s.queue.heap timer = some t → s'.queue.heap timer = some t :=
    fun hcancel hreset timer t ht => hsteps.heap_kept ht (fun _ => hcancel _) fun heq => absurd heq hreset
  cases hsteps with
  | tick | addTimer | createTimer | addTimerInLoop | report | handleRead | run | return_ =>
    exact .nothing (hkept (by simp) (by simp))
  | cancelPending timer t hcode ht hnotMem =>
    have hactive : toLex (timer, t.sequence) ∈ s.queue.activeTimers :=
      (h.owns.activeTimers _ _).mpr ⟨t, ht, rfl, hnotMem⟩
    rw [deletes, if_pos hactive]
    refine ⟨List.pairwise_singleton _ _, ?_, ?_, ?_⟩
    . intro b hb
      rw [List.mem_singleton] at hb
      exact ⟨t, hb ▸ ht⟩
    . intro b hb
      rw [List.mem_singleton] at hb
      subst hb
      exact Function.update_self ..
    . intro b t' ht' hb
      rw [List.mem_singleton] at hb
      exact ⟨t', (Function.update_of_ne hb ..).trans ht', rfl⟩
  | cancelOther timerId _ hactive =>
    rw [deletes, if_neg hactive]
    apply DeletesOnce.nothing
    intro timer t ht
    dsimp only
    rw [(s.queue.canceling_eq timerId).2.2.1]
    exact ht
  | reset f queue hf _ _ hrenewed => exact h.deletesOnce_reset hf hrenewed

/-
A step that finds no result has dereferenced a timer that is deleted.
-/

-- the step can be taken: its party is ready for it, and there is something to do
def offered (s : TimerLoop φ) : Label φ → Prop
  | .addTimerInLoop => s.frame = none ∧ s.queued ≠ []
  | .run => ∃ f, s.frame = some f ∧ f.running = false ∧ f.todo ≠ []
  | a => s.enabledAnyTime a = true

theorem Inv.exists_cancelInLoop (h : s.Inv) (timerId : TimerId)
    : ∃ queue, s.queue.cancelInLoop timerId = some queue := by
  rw [cancelInLoop_eq]
  dsimp only
  split
  . next hmem =>
    obtain ⟨t, ht, _⟩ := (h.owns.activeTimers _ _).mp hmem
    rw [ht]
    exact ⟨_, rfl⟩
  . split
    . exact ⟨_, rfl⟩
    . exact ⟨_, rfl⟩

theorem Inv.exists_next (h : s.Inv) (hoffered : s.offered a)
    : s.enabledAnyTime a = true ∧ ∃ s', s.next a = some s' := by
  cases a with
  | tick | createTimer | report => exact ⟨hoffered, _, rfl⟩
  | addTimer timer cb when_ interval =>
    obtain ⟨queue, hadd, _⟩ := addTimer_eq_some s.queue timer cb when_ interval s.clock
    refine ⟨hoffered, ?_⟩
    simp only [next, hadd, Option.map_some]
    exact ⟨_, rfl⟩
  | addTimerInLoop =>
    obtain ⟨hf, hqueued⟩ := hoffered
    obtain ⟨timer, queued, heq⟩ := List.exists_cons_of_ne_nil hqueued
    obtain ⟨t, ht⟩ := h.owns.live timer (by simp [heq])
    obtain ⟨queue, hadd, _⟩ := addTimerInLoop_eq_some ht s.clock
    refine ⟨by simp [enabledAnyTime, enabled, hf], ?_⟩
    simp only [next, heq, hadd, Option.map_some]
    exact ⟨_, rfl⟩
  | cancel timerId =>
    obtain ⟨queue, hcancel⟩ := h.exists_cancelInLoop timerId
    refine ⟨hoffered, ?_⟩
    simp only [next, hcancel, Option.map_some]
    exact ⟨_, rfl⟩
  | handleRead => exact ⟨hoffered, h.exists_next_handleRead⟩
  | run =>
    obtain ⟨f, hf, hrunning, htodo⟩ := hoffered
    exact ⟨by simp [enabledAnyTime, enabled, hf, hrunning], h.exists_next_run hf htodo⟩
  | return_ =>
    refine ⟨hoffered, ?_⟩
    simp only [offered, enabledAnyTime, enabled, Option.any_eq_true] at hoffered
    obtain ⟨f, hf, _⟩ := hoffered
    simp only [next, hf, Option.map_some]
    exact ⟨_, rfl⟩
  | reset =>
    have hreset := hoffered
    simp only [offered, enabledAnyTime, enabled, Option.any_eq_true] at hreset
    obtain ⟨f, hf, _⟩ := hreset
    exact ⟨hoffered, h.exists_next_reset hf⟩

theorem Inv.exists_step (h : s.Inv) (hoffered : s.offered a) : ∃ s', (anyTime φ).step s a = some s' := by
  obtain ⟨henabled, s', hnext⟩ := h.exists_next hoffered
  exact ⟨s', LTS.guarded_step.mpr ⟨henabled, hnext⟩⟩

theorem inv_anyTime (h : (anyTime φ).Reachable s) : s.Inv := by
  apply h.invariant Inv
  . rintro _ ⟨clock, rfl⟩
    exact .new clock
  . intro _ _ _ hinv hstep
    exact hinv.of_steps (hinv.steps_anyTime hstep)

/--
In every run, with any calls of callbacks: the sets agree, every timer has one owner, no step dereferences a
timer that is deleted, and none deletes a timer twice.
-/
theorem indices_agree (hs : (anyTime φ).Reachable s)
    : s.Indexed ∧ s.OwnedOnce ∧ (∀ a, s.offered a → ∃ s', (anyTime φ).step s a = some s')
        ∧ ∀ a s', (anyTime φ).step s a = some s' → DeletesOnce s s' (s.deletes a) := by
  have hinv := inv_anyTime hs
  refine ⟨hinv.indexed, hinv.ownedOnce, fun a => hinv.exists_step, ?_⟩
  intro a s' hstep
  exact hinv.deletesOnce (hinv.steps_anyTime hstep)

-- the first callback of a batch of two cancels both and a pending timer, whose address is used again
def canceledInCallback : TimerLoop Unit :=
  ((anyTime Unit).run (new 0)
    [.addTimer 1 () 1 5, .addTimer 2 () 1 0, .addTimer 3 () 100 0, .tick 1000000, .handleRead, .run,
      .cancel ⟨2, 2⟩, .cancel ⟨1, 1⟩, .cancel ⟨3, 3⟩, .addTimer 3 () 7 0, .return_, .run, .return_]).get rfl

theorem indices_agree_canceledInCallback
    : canceledInCallback.OwnedOnce ∧ toLex (7, 3) ∈ canceledInCallback.queue.timers
        ∧ ∃ s', (anyTime Unit).step canceledInCallback .reset = some s'
          ∧ DeletesOnce canceledInCallback s' [1, 2] ∧ s'.OwnedOnce := by
  have hs : (anyTime Unit).Reachable canceledInCallback :=
    LTS.Reachable.run (.init ⟨0, rfl⟩) (Option.some_get _).symm
  obtain ⟨_, howned, hstep, hdeletes⟩ := indices_agree hs
  obtain ⟨s', hreset⟩ := hstep .reset rfl
  obtain ⟨_, howned', _, _⟩ := indices_agree (.step hs trivial hreset)
  exact ⟨howned, by decide, s', hreset, hdeletes .reset s' hreset, howned'⟩

end TimerLoop

end MyMuduo
