import MyMuduo.EventLoop.Invariant

/-!
This module contains what a loop still executes after a call of `quit`: the functors that were queued
before it, as long as the loop thread has not passed the swap of its last iteration.
-/

namespace MyMuduo

namespace EventLoop

variable {φ τ : Type}

-- `doPendingFunctors` of the current iteration is still to take the pending functors
def LoopPc.swapAhead : LoopPc → Bool
  | .entered | .aboutToPoll | .polling | .events | .callback | .swapping => true
  | .outside | .test | .functors | .functor => false

namespace Threads

-- how many functors are in front of the pending ones
def taken (s : Threads φ τ) : Nat :=
  s.executed.length + s.loop.functors.length

/--
The loop will not return without having executed the functor with the number `i`.
-/
def Covered (s : Threads φ τ) (i : Nat) : Prop :=
  s.pc.swapAhead = true ∨ (s.pc = .test ∧ s.loop.quit_ = false) ∨ i < s.taken

theorem Inv.length_queued {s : Threads φ τ} (h : s.Inv)
    : s.queued.length = s.taken + s.loop.pendingFunctors.length := by
  rw [← h.order, List.length_append, List.length_append, taken]

theorem Covered.of_taken {s s' : Threads φ τ} {i : Nat} (h : s.Covered i)
    (hahead : s.pc.swapAhead = false) (htest : s.pc ≠ .test ∨ s.loop.quit_ = true)
    (htaken : s'.taken = s.taken) : s'.Covered i := by
  obtain hpc | hpc | hlt := h
  . rw [hahead] at hpc
    cases hpc
  . simp [hpc] at htest
  . exact .inr (.inr (htaken ▸ hlt))

variable [DecidableEq τ]

theorem Covered.step {s s' : Threads φ τ} {a : Label φ τ} {i : Nat} (h : s.Covered i) (hinv : s.Inv)
    (hqueued : i < s.queued.length) (hstep : (system φ τ).step s a = some s') (hquit : ∀ t, a ≠ .quit t)
    : s'.Covered i := by
  obtain ⟨henabled, hnext⟩ := LTS.guarded_step.mp hstep
  cases a with
  | quit t => exact absurd rfl (hquit t)
  | push =>
    simp only [next, Option.some.injEq] at hnext
    subst hnext
    exact h
  | wakeup | quitWakeup =>
    simp only [next, Option.some.injEq, wakeupIfNeeded] at hnext
    subst hnext
    simpa [Covered, taken, apply_ite EventLoop.quit_, apply_ite EventLoop.functors] using h
  | updateChannel | removeChannel =>
    simp only [next, Option.map_eq_some_iff] at hnext
    obtain ⟨_, _, rfl⟩ := hnext
    exact h
  | runAt | runAfter =>
    simp only [next, runAfter, runAt, Option.map_eq_some_iff, Option.bind_eq_some_iff] at hnext
    obtain ⟨_, ⟨_, _, _, _, rfl⟩, rfl⟩ := hnext
    exact h
  | enter | poll | pollReturn | callbackReturn | startCalling =>
    simp only [next, Option.some.injEq] at hnext
    subst hnext
    exact .inl rfl
  | clearQuit =>
    simp only [next, Option.some.injEq] at hnext
    subst hnext
    exact .inr (.inl ⟨rfl, rfl⟩)
  | dispatch =>
    have hpc := (atPc_iff.mp henabled).2
    simp only [next] at hnext
    split at hnext
    . cases hnext
    . split at hnext
      all_goals
        simp only [Option.some.injEq] at hnext
        subst hnext
        left
        simp [hpc, LoopPc.swapAhead]
  | test =>
    have hpc := (atPc_iff.mp henabled).2
    simp only [next] at hnext
    split at hnext
    . next hseen =>
      simp only [Option.some.injEq] at hnext
      subst hnext
      exact h.of_taken (by simp [hpc, LoopPc.swapAhead]) (.inr hseen) rfl
    . simp only [Option.some.injEq] at hnext
      subst hnext
      exact .inl rfl
  | swap =>
    have hpc := (atPc_iff.mp henabled).2
    have hempty : s.loop.functors = [] := hinv.batch (by simp [hpc]) (by simp [hpc])
    have hlength := hinv.length_queued
    simp only [next, Option.some.injEq] at hnext
    subst hnext
    right
    right
    simp only [taken, swapFunctors, hempty, List.length_nil] at hlength ⊢
    omega
  | runFunctor =>
    have hpc := (atPc_iff.mp henabled).2
    simp only [next] at hnext
    split at hnext
    . cases hnext
    . next functor rest hfunctors =>
      simp only [Option.some.injEq] at hnext
      subst hnext
      apply h.of_taken
      . simp [hpc, LoopPc.swapAhead]
      . simp [hpc]
      . simp only [taken, hfunctors, List.length_append, List.length_cons, List.length_nil]
        omega
  | functorReturn =>
    have hpc := (atPc_iff.mp henabled).2
    simp only [next, Option.some.injEq] at hnext
    subst hnext
    exact h.of_taken (by simp [hpc, LoopPc.swapAhead]) (.inl (by simp [hpc])) rfl
  | endCalling =>
    have hpc := (atPc_iff.mp (Bool.and_eq_true_iff.mp henabled).1).2
    simp only [next, Option.some.injEq] at hnext
    subst hnext
    exact h.of_taken (by simp [hpc, LoopPc.swapAhead]) (.inl (by simp [hpc])) rfl

theorem pushed_of_step {s s' : Threads φ τ} {a : Label φ τ} {t : Thread τ} (hnext : s.next a = some s')
    (ht : s'.callers t = .pushed) : s.callers t = .pushed ∨ ∃ cb, a = .push t cb := by
  cases a with
  | push t' cb =>
    simp only [next, Option.some.injEq] at hnext
    subst hnext
    by_cases heq : t = t'
    . exact .inr ⟨cb, heq ▸ rfl⟩
    . exact .inl (by simpa [Function.update_of_ne heq] using ht)
  | wakeup t' | quit t' | quitWakeup t' =>
    simp only [next, Option.some.injEq] at hnext
    subst hnext
    by_cases heq : t = t'
    . simp [heq] at ht
    . exact .inl (by simpa [Function.update_of_ne heq] using ht)
  | updateChannel | removeChannel =>
    simp only [next, Option.map_eq_some_iff] at hnext
    obtain ⟨_, _, rfl⟩ := hnext
    exact .inl ht
  | runAt | runAfter =>
    simp only [next, runAfter, runAt, Option.map_eq_some_iff, Option.bind_eq_some_iff] at hnext
    obtain ⟨_, ⟨_, _, _, _, rfl⟩, rfl⟩ := hnext
    exact .inl ht
  | test | runFunctor =>
    simp only [next] at hnext
    split at hnext
    all_goals
      cases hnext
      try exact .inl ht
  | dispatch =>
    simp only [next] at hnext
    split at hnext
    . cases hnext
    . split at hnext
      all_goals
        cases hnext
        exact .inl ht
  | enter | clearQuit | poll | pollReturn | callbackReturn | startCalling | swap | functorReturn
  | endCalling =>
    simp only [next, Option.some.injEq] at hnext
    subst hnext
    exact .inl ht

end Threads

/--
Functors are numbered in the order of their pushes. `pushed t` is the one that the call of `t` has
pushed, `returned` are those whose call of `queueInLoop` has returned, and `due` those of them that had
returned when a call of `quit` on the running loop began.
-/
structure Observed (φ τ : Type) where
  threads : Threads φ τ
  pushed : Thread τ → Nat
  returned : List Nat
  due : List Nat

namespace Observed

def initial (loop : EventLoop φ) : Observed φ τ where
  threads := .initial loop
  pushed _ := 0
  returned := []
  due := []

variable [DecidableEq τ]

def record (s : Observed φ τ) (a : Label φ τ) (threads : Threads φ τ) : Observed φ τ :=
  match a with
  | .push t _ =>
    { s with
        threads := threads
        pushed := Function.update s.pushed t s.threads.queued.length }
  | .wakeup t => { s with threads := threads, returned := s.returned ++ [s.pushed t] }
  | .quit _ =>
    { s with
        threads := threads
        due := if s.threads.pc = .outside then s.due else s.returned }
  | _ => { s with threads := threads }

def system (φ τ : Type) [DecidableEq τ] : LTS (Observed φ τ) (Label φ τ) where
  init s := (Threads.system φ τ).init s.threads ∧ s.returned = [] ∧ s.due = []
  step s a := ((Threads.system φ τ).step s.threads a).map (s.record a)

/--
A call of `quit` on the running loop comes in front of the swap, or no functor whose call has returned
is behind it.
-/
def QuitInTime (s : Observed φ τ) : Label φ τ → Prop
  | .quit _ =>
    s.threads.pc = .outside ∨ s.threads.pc.swapAhead = true ∨ ∀ i ∈ s.returned, i < s.threads.taken
  | _ => True

structure Inv (s : Observed φ τ) : Prop where
  threads : s.threads.Inv
  pushed : ∀ t, s.threads.callers t = .pushed → s.pushed t < s.threads.queued.length
  returned : ∀ i ∈ s.returned, i < s.threads.queued.length
  due : ∀ i ∈ s.due, i ∈ s.returned
  covered : ∀ i ∈ s.due, s.threads.Covered i

theorem threads_record (s : Observed φ τ) (a : Label φ τ) (threads : Threads φ τ)
    : (s.record a threads).threads = threads := by
  unfold record
  split <;> rfl

theorem length_queued_le {s s' : Threads φ τ} {a : Label φ τ}
    (hstep : (Threads.system φ τ).step s a = some s') : s.queued.length ≤ s'.queued.length := by
  obtain ⟨_, hnext⟩ := LTS.guarded_step.mp hstep
  rcases Threads.next_history hnext with ⟨hqueued, _⟩ | ⟨_, hqueued, _⟩ | ⟨_, _, _, hqueued, _⟩
  . rw [hqueued]
  . simp [hqueued]
  . rw [hqueued]

theorem Inv.pushed_step {s : Observed φ τ} {a : Label φ τ} {threads : Threads φ τ} (h : s.Inv)
    (hstep : (Threads.system φ τ).step s.threads a = some threads)
    : ∀ t, threads.callers t = .pushed → (s.record a threads).pushed t < threads.queued.length := by
  intro t ht
  have hlength := length_queued_le hstep
  have hnext := (LTS.guarded_step.mp hstep).2
  cases Threads.pushed_of_step hnext ht with
  | inr hpush =>
    obtain ⟨cb, rfl⟩ := hpush
    simp only [Threads.next, Option.some.injEq] at hnext
    simp [record, ← hnext]
  | inl hold =>
    have hlt := h.pushed t hold
    unfold record
    split
    . next t' cb =>
      by_cases heq : t = t'
      . subst heq
        simp only [Threads.next, Option.some.injEq] at hnext
        simp [← hnext]
      . dsimp only
        rw [Function.update_of_ne heq]
        omega
    all_goals
      dsimp only
      omega

theorem Inv.step {s s' : Observed φ τ} {a : Label φ τ} (h : s.Inv) (hok : s.QuitInTime a)
    (hstep : (system φ τ).step s a = some s') : s'.Inv := by
  simp only [system, Option.map_eq_some_iff] at hstep
  obtain ⟨threads, hthreads, rfl⟩ := hstep
  obtain ⟨henabled, hnext⟩ := LTS.guarded_step.mp hthreads
  have hlength := length_queued_le hthreads
  have hreturned : ∀ i ∈ s.returned, i < threads.queued.length :=
    fun i hi => Nat.lt_of_lt_of_le (h.returned i hi) hlength
  refine ⟨?_, ?_, ?_, ?_, ?_⟩
  . rw [threads_record]
    exact h.threads.step hthreads
  . rw [threads_record]
    exact h.pushed_step hthreads
  . rw [threads_record]
    cases a with
    | wakeup t =>
      intro i hi
      rw [record, List.mem_append, List.mem_singleton] at hi
      cases hi with
      | inl hi => exact hreturned i hi
      | inr heq =>
        have hpushed := h.pushed t (by simpa [Threads.enabled] using henabled)
        omega
    | _ => exact hreturned
  . cases a with
    | wakeup t =>
      intro i hi
      exact List.mem_append_left _ (h.due i hi)
    | quit t =>
      intro i hi
      simp only [record] at hi
      split at hi
      . exact h.due i hi
      . exact hi
    | _ => exact h.due
  . rw [threads_record]
    have hcovered : (∀ t, a ≠ .quit t) → ∀ i ∈ s.due, threads.Covered i := by
      intro hquit i hi
      exact (h.covered i hi).step h.threads (h.returned i (h.due i hi)) hthreads hquit
    cases a with
    | quit t =>
      simp only [Threads.next, Option.some.injEq] at hnext
      subst hnext
      intro i hi
      simp only [record] at hi
      split at hi
      . next hpc => exact (h.covered i hi).of_taken (by simp [hpc, LoopPc.swapAhead]) (by simp [hpc]) rfl
      . next hpc =>
        obtain houtside | hahead | htaken := hok
        . exact absurd houtside hpc
        . exact .inl hahead
        . exact .inr (.inr (htaken i hi))
    | _ => exact hcovered (by simp)

theorem inv_of_reachable {s : Observed φ τ} (h : (system φ τ).ReachableBy QuitInTime s) : s.Inv := by
  apply h.invariant Inv
  . rintro s ⟨hthreads, hreturned, hdue⟩
    have hcallers : ∀ t, s.threads.callers t = .idle := hthreads.2.2.1
    refine ⟨.init hthreads, ?_, ?_, ?_, ?_⟩ <;> simp [hreturned, hdue, hcallers]
  . intro _ _ _ hinv hok hstep
    exact hinv.step hok hstep

/--
When `loop` has returned, every functor is executed whose call of `queueInLoop` had returned before a
call of `quit` began.
-/
theorem executed_before_quit {s : Observed φ τ} (h : (system φ τ).ReachableBy QuitInTime s)
    (hpc : s.threads.pc = .outside)
    : s.threads.executed <+: s.threads.queued ∧ ∀ i ∈ s.due, i < s.threads.executed.length := by
  have hinv := inv_of_reachable h
  constructor
  . rw [← hinv.threads.order, List.append_assoc]
    apply List.prefix_append
  . intro i hi
    have hempty : s.threads.loop.functors = [] := hinv.threads.batch (by simp [hpc]) (by simp [hpc])
    obtain hahead | htest | htaken := hinv.covered i hi
    . simp [hpc, LoopPc.swapAhead] at hahead
    . simp [hpc] at htest
    . simpa [Threads.taken, hempty] using htaken

instance (s : Observed φ τ) : (a : Label φ τ) → Decidable (s.QuitInTime a)
  | .quit _ => inferInstanceAs (Decidable (_ ∨ _ ∨ _))
  | .push .. | .wakeup _ | .quitWakeup _ | .updateChannel _ | .removeChannel _ | .runAt .. | .runAfter ..
  | .enter | .clearQuit | .test | .poll | .pollReturn _ | .dispatch | .callbackReturn | .startCalling
  | .swap | .runFunctor | .functorReturn | .endCalling => .isTrue trivial

theorem initial_init : (system Nat Unit).init (initial (constructed Nat)) :=
  ⟨⟨⟨3, 1, new_constructed⟩, rfl, fun _ => rfl, rfl, rfl⟩, rfl, rfl⟩

-- another thread queues a functor and calls `quit` while the loop polls
def quitWhilePolling : List (Label Nat Unit) :=
  [.enter, .clearQuit, .test, .poll, .push (.other ()) 7, .wakeup (.other ()), .quit (.other ()),
    .quitWakeup (.other ()), .pollReturn [1], .dispatch, .startCalling, .swap, .runFunctor,
    .functorReturn, .endCalling, .test]

theorem executed_before_quit_polling
    : ∃ s, (system Nat Unit).runChecked (fun s a => s.QuitInTime a) (initial (constructed Nat))
          quitWhilePolling = some s
        ∧ s.threads.pc = .outside ∧ s.due = [0] ∧ s.threads.executed = [7]
        ∧ ∀ i ∈ s.due, i < s.threads.executed.length := by
  have h : (system Nat Unit).runChecked (fun s a => s.QuitInTime a) (initial (constructed Nat))
      quitWhilePolling = some _ := rfl
  refine ⟨_, h, rfl, rfl, rfl, ?_⟩
  refine (executed_before_quit ?_ rfl).2
  exact LTS.ReachableBy.runChecked (by simp) (.init initial_init) h

-- the same calls behind the swap
def quitBehindSwap : List (Label Nat Unit) :=
  [.enter, .clearQuit, .test, .poll, .pollReturn [], .startCalling, .swap, .push (.other ()) 7,
    .wakeup (.other ()), .quit (.other ()), .quitWakeup (.other ()), .endCalling, .test]

/--
The loop returns with the functor still pending.
-/
theorem quit_overtakes
    : ∃ s, (system Nat Unit).Reachable s ∧ s.threads.pc = .outside ∧ s.due = [0]
        ∧ s.threads.executed = [] ∧ s.threads.loop.pendingFunctors = [7]
        ∧ ¬∀ i ∈ s.due, i < s.threads.executed.length := by
  have h : (system Nat Unit).run (initial (constructed Nat)) quitBehindSwap = some _ := rfl
  refine ⟨_, LTS.Reachable.run (.init initial_init) h, rfl, rfl, rfl, rfl, ?_⟩
  decide

end Observed

end EventLoop

end MyMuduo
