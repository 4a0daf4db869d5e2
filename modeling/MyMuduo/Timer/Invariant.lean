import MyMuduo.Timer.Ownership
import MyMuduo.Timer.Loop

/-!
This module contains what a step of a timer loop does to the timers, and what holds in every run.
-/

namespace MyMuduo

namespace TimerLoop

open TimerQueue

universe u

variable {φ : Type u} {s s' : TimerLoop φ} {a : Label φ}

def batch (s : TimerLoop φ) : List Entry :=
  match s.frame with
  | none => []
  | some f => f.expired

/--
The queue, the functors and the batch in progress own every `Timer` once.
-/
structure Inv (s : TimerLoop φ) : Prop where
  owns : s.queue.Owns (addrs s.batch ++ s.queued)
  addressable : s.queue.Addressable
  numbered : ∀ timer t, s.queue.heap timer = some t → t.sequence ≤ s.queue.numCreated
  ranNumbered : ∀ r ∈ s.ran, r.sequence ≤ s.queue.numCreated
  todo : ∀ f, s.frame = some f → f.todo <:+ f.expired

/--
All that a step can do, with the queue's part of it up to the timerfd.
-/
inductive Steps (s : TimerLoop φ) : Label φ → TimerLoop φ → Prop where
  | tick (microseconds : Nat) : Steps s (.tick microseconds) { s with clock := s.clock + microseconds }
  | addTimer (timer : Addr) (cb : φ) (when_ : Timestamp) (interval : Rat) (t : Timer φ)
      (queue : TimerQueue φ) :
    s.inUserCode = true → s.allocates timer = true →
    t = Timer.new cb when_ interval s.queue.numCreated →
    SameTimers ((s.queue.allocated timer t).inserted timer t) queue →
    Steps s (.addTimer timer cb when_ interval) { s with queue := queue }
  | createTimer (timer : Addr) (cb : φ) (when_ : Timestamp) (interval : Rat) (t : Timer φ) :
    s.allocates timer = true → t = Timer.new cb when_ interval s.queue.numCreated →
    Steps s (.createTimer timer cb when_ interval)
      { s with queue := s.queue.allocated timer t, queued := s.queued ++ [timer] }
  | addTimerInLoop (timer : Addr) (t : Timer φ) (queued : List Addr) (queue : TimerQueue φ) :
    s.frame = none → s.queued = timer :: queued → s.queue.heap timer = some t →
    SameTimers (s.queue.inserted timer t) queue →
    Steps s .addTimerInLoop { s with queue := queue, queued := queued }
  | cancelPending (timer : Addr) (t : Timer φ) :
    s.inUserCode = true → s.queue.heap timer = some t → timer ∉ addrs s.batch ++ s.queued →
    Steps s (.cancel ⟨timer, t.sequence⟩) { s with queue := (s.queue.erased timer t).freed timer }
  | cancelOther (timerId : TimerId) :
    s.inUserCode = true → toLex (timerId.timer, timerId.sequence) ∉ s.queue.activeTimers →
    Steps s (.cancel timerId) { s with queue := s.queue.canceling timerId }
  | report : s.frame = none → Steps s .report { s with reported := true }
  | handleRead (f : HandleRead) (queue : TimerQueue φ) :
    s.frame = none → f.start = s.clock → f.now = Timestamp.now s.clock → f.todo = f.expired →
    f.running = false → queue.callingExpiredTimers = true → queue.cancelingTimers = .empty →
    Expiry s.queue queue f.now f.expired → queue.Owns (addrs f.expired ++ s.queued) →
    Steps s .handleRead { s with queue := queue, reported := false, frame := some f }
  | run (f : HandleRead) (when_ : Timestamp) (timer : Addr) (t : Timer φ) (todo : List Entry) :
    s.frame = some f → f.running = false → f.todo = toLex (when_, timer) :: todo →
    s.queue.heap timer = some t →
    Steps s .run
      { s with
          frame := some { f with todo := todo, running := true }
          ran := s.ran ++ [⟨s.ended.length, f.start, t.sequence, t.expiration⟩] }
  | return_ (f : HandleRead) :
    s.frame = some f → f.running = true →
    Steps s .return_ { s with frame := some { f with running := false } }
  | reset (f : HandleRead) (queue : TimerQueue φ) :
    s.frame = some f → f.running = false → f.todo = [] →
    Renewed { s.queue with callingExpiredTimers := false } queue f.now f.expired → queue.Owns s.queued →
    Steps s .reset { s with queue := queue, frame := none, ended := s.ended ++ [f.start] }

theorem batch_of_none (h : s.frame = none) : s.batch = [] := by
  unfold batch
  rw [h]

theorem batch_of_some {f : HandleRead} (h : s.frame = some f) : s.batch = f.expired := by
  unfold batch
  rw [h]

theorem Inv.steps_of_next (h : s.Inv) (henabled : s.enabledAnyTime a = true) (hnext : s.next a = some s')
    : Steps s a s' := by
  cases a with
  | tick microseconds =>
    simp only [next, Option.some.injEq] at hnext
    exact hnext ▸ .tick microseconds
  | addTimer timer cb when_ interval =>
    obtain ⟨queue, hadd, hsame⟩ := addTimer_eq_some s.queue timer cb when_ interval s.clock
    simp only [next, hadd, Option.map_some, Option.some.injEq] at hnext
    simp only [enabledAnyTime, enabled, Bool.and_eq_true] at henabled
    exact hnext ▸ .addTimer timer cb when_ interval _ queue henabled.1 henabled.2 rfl hsame
  | createTimer timer cb when_ interval =>
    simp only [next, Option.some.injEq] at hnext
    exact hnext ▸ .createTimer timer cb when_ interval _ henabled rfl
  | addTimerInLoop =>
    simp only [next] at hnext
    split at hnext
    . cases hnext
    . next timer queued hqueued =>
      obtain ⟨t, ht⟩ := h.owns.live timer (by simp [hqueued])
      obtain ⟨queue, hadd, hsame⟩ := addTimerInLoop_eq_some ht s.clock
      simp only [hadd, Option.map_some, Option.some.injEq] at hnext
      simp only [enabledAnyTime, enabled, Option.isNone_iff_eq_none] at henabled
      exact hnext ▸ .addTimerInLoop timer t queued queue henabled hqueued ht hsame
  | cancel timerId =>
    simp only [next, Option.map_eq_some_iff] at hnext
    obtain ⟨queue, hcancel, rfl⟩ := hnext
    cases cancelInLoop_cases h.owns hcancel with
    | inl hpending =>
      obtain ⟨t, ht, hsequence, hnotMem, rfl⟩ := hpending
      obtain ⟨timer, sequence⟩ := timerId
      subst hsequence
      exact .cancelPending timer t henabled ht hnotMem
    | inr hother =>
      obtain ⟨hnotMem, rfl⟩ := hother
      exact .cancelOther timerId henabled hnotMem
  | report =>
    simp only [next, Option.some.injEq] at hnext
    simp only [enabledAnyTime, enabled, Bool.and_eq_true, Option.isNone_iff_eq_none] at henabled
    exact hnext ▸ .report henabled.1
  | handleRead =>
    simp only [enabledAnyTime, Option.isNone_iff_eq_none] at henabled
    simp only [next, TimerLoop.handleRead, Option.map_eq_some_iff] at hnext
    obtain ⟨⟨queue, expired⟩, hexpired, rfl⟩ := hnext
    have hsame := SameTimers.readTimerfd s.queue s.clock
    have howns := h.owns
    rw [batch_of_none henabled] at howns
    have haddressable : (s.queue.readTimerfd s.clock).Addressable := by
      unfold Addressable
      rw [hsame.heap]
      exact h.addressable
    obtain ⟨hexpiry, hmoved⟩ := getExpired_eq_some (howns.of_sameTimers hsame) haddressable hexpired
    apply Steps.handleRead _ _ henabled rfl rfl rfl rfl rfl rfl
    . refine ⟨hexpiry.heap.trans hsame.heap, hexpiry.numCreated.trans hsame.numCreated, ?_, hexpiry.sorted⟩
      intro when_ timer
      rw [hexpiry.mem, hsame.timers]
    . exact hmoved.congr rfl rfl rfl
  | run =>
    simp only [next, Option.bind_eq_some_iff] at hnext
    obtain ⟨f, hf, hrun⟩ := hnext
    simp only [enabledAnyTime, enabled, hf, Option.any_some, Bool.not_eq_true'] at henabled
    unfold TimerLoop.run at hrun
    split at hrun
    . cases hrun
    . next it todo htodo =>
      simp only [Option.map_eq_some_iff] at hrun
      obtain ⟨t, ht, rfl⟩ := hrun
      exact .run f (ofLex it).1 (ofLex it).2 t todo hf henabled htodo ht
  | return_ =>
    simp only [next, Option.map_eq_some_iff] at hnext
    obtain ⟨f, hf, rfl⟩ := hnext
    simp only [enabledAnyTime, enabled, hf, Option.any_some] at henabled
    exact .return_ f hf henabled
  | reset =>
    simp only [next, Option.bind_eq_some_iff] at hnext
    obtain ⟨f, hf, hreset⟩ := hnext
    simp only [enabledAnyTime, enabled, hf, Option.any_some, Bool.and_eq_true, Bool.not_eq_true',
      List.isEmpty_iff] at henabled
    simp only [TimerLoop.reset, Option.map_eq_some_iff] at hreset
    obtain ⟨queue, hqueue, rfl⟩ := hreset
    have howns : { s.queue with callingExpiredTimers := false }.Owns (addrs f.expired ++ s.queued) :=
      (batch_of_some hf ▸ h.owns).congr rfl rfl rfl
    obtain ⟨hrenewed, hback⟩ := reset_eq_some howns hqueue
    exact .reset f queue hf henabled.1 henabled.2 hrenewed hback

theorem Inv.steps (h : s.Inv) (hstep : (system φ).step s a = some s') : Steps s a s' := by
  obtain ⟨henabled, hnext⟩ := LTS.guarded_step.mp hstep
  exact h.steps_of_next (enabledAnyTime_of_enabled henabled) hnext

theorem Inv.steps_anyTime (h : s.Inv) (hstep : (anyTime φ).step s a = some s') : Steps s a s' := by
  obtain ⟨henabled, hnext⟩ := LTS.guarded_step.mp hstep
  exact h.steps_of_next henabled hnext

/--
A timer that lives after the step has lived before it, under the same sequence, or is a new one.
-/
structure Heirs (s s' : TimerLoop φ) : Prop where
  numCreated : s.queue.numCreated ≤ s'.queue.numCreated
  heap : ∀ timer t', s'.queue.heap timer = some t' →
    (∃ t, s.queue.heap timer = some t ∧ t'.sequence = t.sequence)
      ∨ (timer < UINTPTR_MAX ∧ s.queue.numCreated < t'.sequence ∧ t'.sequence ≤ s'.queue.numCreated)

theorem Heirs.of_heap (hheap : s'.queue.heap = s.queue.heap)
    (hnumCreated : s'.queue.numCreated = s.queue.numCreated) : Heirs s s' := by
  refine ⟨Nat.le_of_eq hnumCreated.symm, ?_⟩
  intro timer t' ht'
  rw [hheap] at ht'
  exact .inl ⟨t', ht', rfl⟩

theorem Heirs.of_new {timer : Addr} {t : Timer φ} (haddr : timer < UINTPTR_MAX)
    (hsequence : t.sequence = s.queue.numCreated + 1)
    (hheap : s'.queue.heap = Function.update s.queue.heap timer (some t))
    (hnumCreated : s'.queue.numCreated = s.queue.numCreated + 1) : Heirs s s' := by
  refine ⟨by omega, ?_⟩
  intro a t' ht'
  rw [hheap] at ht'
  by_cases heq : a = timer
  . subst heq
    rw [Function.update_self, Option.some.injEq] at ht'
    subst ht'
    exact .inr ⟨haddr, by omega, by omega⟩
  . rw [Function.update_of_ne heq] at ht'
    exact .inl ⟨t', ht', rfl⟩

theorem allocates_iff {timer : Addr}
    : s.allocates timer = true ↔ s.queue.heap timer = none ∧ 0 < timer ∧ timer < UINTPTR_MAX := by
  simp [allocates, and_assoc]

theorem Steps.heirs (h : Steps s a s') : Heirs s s' := by
  cases h with
  | tick | report | return_ | run => exact .of_heap rfl rfl
  | addTimer timer cb when_ interval t queue _ halloc ht hsame =>
    exact .of_new (allocates_iff.mp halloc).2.2 (by rw [ht]; rfl) hsame.heap hsame.numCreated
  | createTimer timer cb when_ interval t halloc ht =>
    exact .of_new (allocates_iff.mp halloc).2.2 (by rw [ht]; rfl) rfl rfl
  | addTimerInLoop timer t queued queue _ _ _ hsame => exact .of_heap hsame.heap hsame.numCreated
  | cancelPending timer t =>
    refine ⟨Nat.le_refl _, ?_⟩
    intro a t' ht'
    simp only [TimerQueue.freed, erased] at ht'
    by_cases heq : a = timer
    . simp [heq] at ht'
    . rw [Function.update_of_ne heq] at ht'
      exact .inl ⟨t', ht', rfl⟩
  | cancelOther timerId =>
    obtain ⟨_, _, hheap, hnumCreated⟩ := s.queue.canceling_eq timerId
    exact .of_heap hheap hnumCreated
  | handleRead f queue _ _ _ _ _ _ _ hexpiry => exact .of_heap hexpiry.heap hexpiry.numCreated
  | reset f queue _ _ _ hrenewed =>
    refine ⟨Nat.le_of_eq hrenewed.numCreated.symm, ?_⟩
    intro a t' ht'
    by_cases hmem : a ∈ addrs f.expired
    . simp only [hrenewed.batch a hmem, Option.bind_eq_some_iff, renewed] at ht'
      obtain ⟨t, ht, hrenew⟩ := ht'
      split at hrenew
      . rw [Option.some.injEq] at hrenew
        exact .inl ⟨t, ht, hrenew ▸ t.sequence_restart _⟩
      . cases hrenew
    . simp only [hrenewed.others a hmem] at ht'
      exact .inl ⟨t', ht', rfl⟩

theorem Inv.owns_step (h : s.Inv) (hsteps : Steps s a s') : s'.queue.Owns (addrs s'.batch ++ s'.queued) := by
  have howns := h.owns
  cases hsteps with
  | tick | report => exact howns
  | addTimer timer cb when_ interval t queue _ halloc ht hsame =>
    have hallocated := howns.allocated (allocates_iff.mp halloc).1 t
    exact (hallocated.inserted (Function.update_self ..)).of_sameTimers hsame
  | createTimer timer cb when_ interval t halloc ht =>
    have hallocated := howns.allocated (allocates_iff.mp halloc).1 t
    apply hallocated.perm
    change (timer :: (addrs s.batch ++ s.queued)).Perm (addrs s.batch ++ (s.queued ++ [timer]))
    rw [← List.append_assoc]
    apply (List.perm_append_singleton _ _).symm
  | addTimerInLoop timer t queued queue hframe hqueued ht hsame =>
    have howns : s.queue.Owns (timer :: queued) := by
      rw [batch_of_none hframe, hqueued] at howns
      exact howns
    have hbatch : ({ s with queue := queue, queued := queued } : TimerLoop φ).batch = [] := batch_of_none hframe
    rw [hbatch]
    exact (howns.inserted ht).of_sameTimers hsame
  | cancelPending timer t _ ht hnotMem => exact (howns.erased ht hnotMem).freed
  | cancelOther timerId =>
    obtain ⟨htimers, hactive, hheap, _⟩ := s.queue.canceling_eq timerId
    exact howns.congr htimers hactive hheap
  | handleRead f queue _ _ _ _ _ _ _ _ hmoved => exact hmoved
  | run f when_ timer t todo hf _ _ _ =>
    rw [batch_of_some hf] at howns
    exact howns
  | return_ f hf _ =>
    rw [batch_of_some hf] at howns
    exact howns
  | reset f queue _ _ _ _ hback => exact hback

theorem Inv.todo_step (h : s.Inv) (hsteps : Steps s a s') : ∀ f, s'.frame = some f → f.todo <:+ f.expired := by
  have htodo := h.todo
  cases hsteps with
  | tick | report | addTimer | createTimer | addTimerInLoop | cancelPending | cancelOther => exact htodo
  | handleRead f queue _ _ _ heq =>
    rintro _ ⟨rfl⟩
    exact heq ▸ List.suffix_rfl
  | run f when_ timer t todo hf _ heq _ =>
    rintro _ ⟨rfl⟩
    have hsuffix := htodo f hf
    rw [heq] at hsuffix
    exact (List.suffix_cons _ _).trans hsuffix
  | return_ f hf _ =>
    rintro _ ⟨rfl⟩
    exact htodo f hf
  | reset =>
    intro _ hnone
    cases hnone

-- a callback is that of a timer which is still to be run
theorem Steps.ran_cases (hsteps : Steps s a s') {r : Run} (hr : r ∈ s'.ran)
    : r ∈ s.ran ∨ ∃ f timer t, s.frame = some f ∧ timer ∈ addrs f.todo ∧ s.queue.heap timer = some t
        ∧ r.start = f.start ∧ r.sequence = t.sequence := by
  cases hsteps with
  | run f when_ timer t todo hf _ htodo ht =>
    rw [List.mem_append, List.mem_singleton] at hr
    cases hr with
    | inl hr => exact .inl hr
    | inr heq =>
      subst heq
      refine .inr ⟨f, timer, t, hf, ?_, ht, rfl, rfl⟩
      rw [htodo]
      exact List.mem_cons_self
  | _ => exact .inl hr

theorem Inv.of_steps (h : s.Inv) (hsteps : Steps s a s') : s'.Inv := by
  have hheirs := hsteps.heirs
  refine ⟨h.owns_step hsteps, ?_, ?_, ?_, h.todo_step hsteps⟩
  . intro timer t' ht'
    cases hheirs.heap timer t' ht' with
    | inl hold =>
      obtain ⟨t, ht, _⟩ := hold
      exact h.addressable timer t ht
    | inr hnew => exact hnew.1
  . intro timer t' ht'
    cases hheirs.heap timer t' ht' with
    | inl hold =>
      obtain ⟨t, ht, hsequence⟩ := hold
      rw [hsequence]
      exact Nat.le_trans (h.numbered timer t ht) hheirs.numCreated
    | inr hnew => exact hnew.2.2
  . intro r hr
    cases hsteps.ran_cases hr with
    | inl hold => exact Nat.le_trans (h.ranNumbered r hold) hheirs.numCreated
    | inr hrun =>
      obtain ⟨_, timer, t, _, _, ht, _, heq⟩ := hrun
      rw [heq]
      exact Nat.le_trans (h.numbered timer t ht) hheirs.numCreated

theorem Inv.step (h : s.Inv) (hstep : (system φ).step s a = some s') : s'.Inv :=
  h.of_steps (h.steps hstep)

theorem Inv.new (clock : Int) : (new clock : TimerLoop φ).Inv := by
  refine ⟨Owns.new, ?_, ?_, ?_, ?_⟩
  . intro timer t ht
    cases ht
  . intro timer t ht
    cases ht
  . intro r hr
    cases hr
  . intro f hf
    cases hf

theorem inv_reachable (h : (system φ).Reachable s) : s.Inv := by
  apply h.invariant Inv
  . rintro _ ⟨clock, rfl⟩
    exact .new clock
  . intro _ _ _ hinv hstep
    exact hinv.step hstep

/--
Nothing but its own cancellation and the end of its batch changes a live timer.
-/
theorem Steps.heap_kept {timer : Addr} {t : Timer φ} (hsteps : Steps s a s')
    (ht : s.queue.heap timer = some t)
    (hcancel : timer ∉ addrs s.batch ++ s.queued → a ≠ .cancel ⟨timer, t.sequence⟩)
    (hreset : a = .reset → timer ∉ addrs s.batch) : s'.queue.heap timer = some t := by
  have hother : ∀ b, s.queue.heap b = none → timer ≠ b := by
    rintro b hb rfl
    simp [hb] at ht
  cases hsteps with
  | tick | report | return_ | run => exact ht
  | addTimer b cb when_ interval t' queue _ halloc _ hsame =>
    rw [hsame.heap]
    exact (Function.update_of_ne (hother b (allocates_iff.mp halloc).1) ..).trans ht
  | createTimer b cb when_ interval t' halloc _ =>
    exact (Function.update_of_ne (hother b (allocates_iff.mp halloc).1) ..).trans ht
  | addTimerInLoop b t' queued queue _ _ _ hsame =>
    rw [hsame.heap]
    exact ht
  | cancelPending b t' _ ht' hnotMem =>
    have hne : timer ≠ b := by
      rintro rfl
      rw [ht, Option.some.injEq] at ht'
      exact hcancel hnotMem (ht' ▸ rfl)
    exact (Function.update_of_ne hne ..).trans ht
  | cancelOther timerId =>
    rw [(s.queue.canceling_eq timerId).2.2.1]
    exact ht
  | handleRead f queue _ _ _ _ _ _ _ hexpiry _ =>
    rw [hexpiry.heap]
    exact ht
  | reset f queue hf _ _ hrenewed _ =>
    have hnotMem := hreset rfl
    rw [batch_of_some hf] at hnotMem
    exact (hrenewed.others timer hnotMem).trans ht

theorem Inv.exists_next_handleRead (h : s.Inv) : ∃ s', s.next .handleRead = some s' := by
  have howns := h.owns.of_sameTimers (.readTimerfd s.queue s.clock)
  obtain ⟨queue, expired, hexpired⟩ := exists_getExpired howns (Timestamp.now s.clock)
  simp only [next, TimerLoop.handleRead, hexpired, Option.map_some]
  exact ⟨_, rfl⟩

theorem Inv.exists_handleRead (h : s.Inv) (henabled : s.enabled .handleRead = true)
    : ∃ s', (system φ).step s .handleRead = some s' := by
  obtain ⟨s', hnext⟩ := h.exists_next_handleRead
  exact ⟨s', LTS.guarded_step.mpr ⟨henabled, hnext⟩⟩

theorem Inv.exists_next_reset {f : HandleRead} (h : s.Inv) (hf : s.frame = some f)
    : ∃ s', s.next .reset = some s' := by
  have howns : { s.queue with callingExpiredTimers := false }.Owns (addrs f.expired ++ s.queued) :=
    (batch_of_some hf ▸ h.owns).congr rfl rfl rfl
  obtain ⟨queue, hreset⟩ := TimerQueue.exists_reset howns f.now s.clock
  simp only [next, hf, Option.bind_some, TimerLoop.reset, hreset, Option.map_some]
  exact ⟨_, rfl⟩

theorem Inv.exists_reset (h : s.Inv) (henabled : s.enabled .reset = true)
    : ∃ s', (system φ).step s .reset = some s' := by
  cases hf : s.frame with
  | none => simp [enabled, hf] at henabled
  | some f =>
    obtain ⟨s', hnext⟩ := h.exists_next_reset hf
    exact ⟨s', LTS.guarded_step.mpr ⟨henabled, hnext⟩⟩

theorem Inv.exists_next_run {f : HandleRead} (h : s.Inv) (hf : s.frame = some f) (htodo : f.todo ≠ [])
    : ∃ s', s.next .run = some s' := by
  cases hlist : f.todo with
  | nil => exact absurd hlist htodo
  | cons it todo =>
    have hmem : it ∈ f.expired := (h.todo f hf).mem (hlist ▸ List.mem_cons_self)
    have hbatch : (ofLex it).2 ∈ addrs s.batch := by
      rw [batch_of_some hf]
      exact mem_addrs.mpr ⟨_, hmem⟩
    obtain ⟨t, ht⟩ := h.owns.live _ (List.mem_append_left _ hbatch)
    simp only [next, hf, Option.bind_some, TimerLoop.run, hlist, ht, Option.map_some]
    exact ⟨_, rfl⟩

theorem canceling_reset (hnext : s.next .reset = some s')
    : s'.queue.cancelingTimers = s.queue.cancelingTimers := by
  simp only [next, Option.bind_eq_some_iff] at hnext
  obtain ⟨f, _, hreset⟩ := hnext
  simp only [TimerLoop.reset, Option.map_eq_some_iff] at hreset
  obtain ⟨queue, hreset, rfl⟩ := hreset
  have hkept := cancelingTimers_reset hreset
  exact hkept

end TimerLoop

end MyMuduo
