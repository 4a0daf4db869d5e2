import MyMuduo.EventLoop.Threads

/-!
This module contains the invariant of a loop under any interleaving of its callers.
-/

namespace MyMuduo

namespace EventLoop

variable {φ τ : Type}

namespace LoopPc

-- from the store of `true` to `callingPendingFunctors_` to that of `false`
def calling : LoopPc → Bool
  | .swapping | .functors | .functor => true
  | _ => false

-- the batch of this iteration has been taken, that of the next one not yet
def swapped : LoopPc → Bool
  | .entered | .test | .aboutToPoll | .polling | .functors | .functor => true
  | _ => false

end LoopPc

namespace Threads

/--
`order` relates the three containers of functors to the history of pushes. `fresh` says what wakes
the poll when a functor that came after `loop` was entered is pending: it is void between the event
phase, in which `handleRead` drains the counter, and the swap that follows it.
-/
structure Inv (s : Threads φ τ) : Prop where
  order : s.executed ++ s.loop.functors ++ s.loop.pendingFunctors = s.queued
  batch : s.pc ≠ .functors → s.pc ≠ .functor → s.loop.functors = []
  calling : s.pc.calling = true → s.loop.callingPendingFunctors = true
  caller : s.callers .loop ≠ .idle → s.pc.runsUserCode = true
  fresh : s.pc.swapped = true → s.stale < s.loop.pendingFunctors.length →
    0 < s.loop.wakeupFd ∨ ∃ t, s.callers t = .pushed
  timerQueue : s.loop.timerQueue = none

theorem Inv.init {s : Threads φ τ} (h : s.Constructed) : s.Inv := by
  obtain ⟨⟨_, _, hnew⟩, hpc, hcallers, hqueued, hexecuted⟩ := h
  obtain ⟨hpending, hfunctors, htimers⟩ := new_eq_some hnew
  constructor
  . simp [hqueued, hexecuted, hpending, hfunctors]
  . intro _ _
    exact hfunctors
  . simp [hpc, LoopPc.calling]
  . simp [hcallers]
  . simp [hpc, LoopPc.swapped]
  . exact htimers

theorem atPc_iff {s : Threads φ τ} {pc : LoopPc}
    : s.atPc pc = true ↔ s.callers .loop = .idle ∧ s.pc = pc := by
  simp [atPc]

/--
A statement of `loop` that touches neither the queue nor the counter.
-/
theorem Inv.control {s : Threads φ τ} (h : s.Inv) {pc : LoopPc} (hidle : s.callers .loop = .idle)
    (looping quit_ : Bool) (activeChannels : List Addr)
    (hbatch : pc = .functors ∨ s.loop.functors = [])
    (hcalling : pc.calling = true → s.loop.callingPendingFunctors = true)
    (hswapped : pc.swapped = true → s.pc.swapped = true)
    : Inv
        { s with
            loop := { s.loop with
              looping := looping, quit_ := quit_, activeChannels := activeChannels }
            pc := pc } :=
  { h with
    batch := fun hne _ => hbatch.resolve_left hne
    calling := hcalling
    caller := fun hne => absurd hidle hne
    fresh := fun hpc => h.fresh (hswapped hpc) }

variable [DecidableEq τ]

theorem exists_pushed_update {callers : Thread τ → Caller} {t : Thread τ} (c : Caller)
    (ht : callers t ≠ .pushed) (h : ∃ t, callers t = .pushed)
    : ∃ t', Function.update callers t c t' = .pushed := by
  obtain ⟨t', ht'⟩ := h
  have hne : t' ≠ t := by
    rintro rfl
    exact ht ht'
  exact ⟨t', by rw [Function.update_of_ne hne, ht']⟩

theorem mayCall_iff {s : Threads φ τ} {t : Thread τ}
    : s.mayCall t = true ↔ s.callers t = .idle ∧ (t = .loop → s.pc.runsUserCode = true) := by
  simp [mayCall, imp_iff_not_or]

/--
A step of one caller changes no other caller, and the loop thread calls only from user code.
-/
theorem Inv.caller_update {s : Threads φ τ} (h : s.Inv) {t : Thread τ} (c : Caller)
    (ht : t = .loop → s.pc.runsUserCode = true)
    : Function.update s.callers t c .loop ≠ .idle → s.pc.runsUserCode = true := by
  intro hne
  by_cases heq : t = .loop
  . exact ht heq
  . rw [Function.update_of_ne (Ne.symm heq)] at hne
    exact h.caller hne

theorem Inv.push {s : Threads φ τ} (h : s.Inv) (t : Thread τ) (cb : φ)
    (hcall : s.mayCall t = true)
    : Inv
        { s with
            loop := s.loop.pushFunctor cb
            callers := Function.update s.callers t .pushed
            queued := s.queued ++ [cb] } :=
  { h with
    order := by
      simp only [pushFunctor]
      rw [← List.append_assoc, h.order]
    caller := h.caller_update _ (mayCall_iff.mp hcall).2
    fresh := fun _ _ => .inr ⟨t, Function.update_self ..⟩ }

theorem Inv.wakeup {s : Threads φ τ} (h : s.Inv) (t : Thread τ) (ht : s.callers t = .pushed)
    : Inv
        { s with
            loop := s.loop.wakeupIfNeeded (t = .loop)
            callers := Function.update s.callers t .idle } := by
  have huser : t = .loop → s.pc.runsUserCode = true := by
    rintro rfl
    apply h.caller
    simp [ht]
  by_cases hneeded : (!decide (t = .loop) || s.loop.callingPendingFunctors) = true
  . simp only [wakeupIfNeeded, hneeded, if_true]
    exact
      { order := by simpa using h.order
        batch := by simpa using h.batch
        calling := by simpa using h.calling
        caller := h.caller_update _ huser
        fresh := fun _ _ => .inl (wakeupFd_wakeup_pos _)
        timerQueue := by simpa using h.timerQueue }
  . -- the loop thread, and not from a functor: the swap is still to come
    simp only [wakeupIfNeeded, hneeded, Bool.false_eq_true, if_false]
    simp only [Bool.or_eq_true, Bool.not_eq_true', decide_eq_false_iff_not, not_or, not_not,
      Bool.not_eq_true] at hneeded
    have hswapped : s.pc.swapped = true → s.pc.calling = true := by
      have := huser hneeded.1
      revert this
      cases s.pc <;> decide
    exact
      { h with
        caller := h.caller_update _ huser
        fresh := by
          intro hpc _
          have := h.calling (hswapped hpc)
          simp [hneeded.2] at this }

theorem Inv.quit {s : Threads φ τ} (h : s.Inv) (t : Thread τ) (hcall : s.mayCall t = true)
    : Inv
        { s with
            loop := { s.loop with quit_ := true }
            callers := Function.update s.callers t .quitting } :=
  { h with
    caller := h.caller_update _ (mayCall_iff.mp hcall).2
    fresh := fun hpc hlt =>
      (h.fresh hpc hlt).imp_right (exists_pushed_update _ (by simp [(mayCall_iff.mp hcall).1])) }

theorem Inv.quitWakeup {s : Threads φ τ} (h : s.Inv) (t : Thread τ) (ht : s.callers t = .quitting)
    : Inv
        { s with
            loop := if t = .loop then s.loop else s.loop.wakeup
            callers := Function.update s.callers t .idle } := by
  have hne : s.callers t ≠ .pushed := by simp [ht]
  split
  . next heq =>
    exact
      { h with
        caller := h.caller_update _ fun _ => h.caller (by simp [← heq, ht])
        fresh := fun hpc hlt => (h.fresh hpc hlt).imp_right (exists_pushed_update _ hne) }
  . next heq =>
    exact
      { order := by simpa using h.order
        batch := by simpa using h.batch
        calling := by simpa using h.calling
        caller := h.caller_update _ fun hloop => absurd hloop heq
        fresh := fun _ _ => .inl (wakeupFd_wakeup_pos _)
        timerQueue := by simpa using h.timerQueue }

theorem Inv.step {s s' : Threads φ τ} {a : Label φ τ} (h : s.Inv)
    (hstep : (system φ τ).step s a = some s') : s'.Inv := by
  obtain ⟨henabled, hnext⟩ := LTS.guarded_step.mp hstep
  cases a with
  | push t cb =>
    simp only [next, Option.some.injEq] at hnext
    subst hnext
    exact h.push t cb henabled
  | wakeup t =>
    simp only [next, Option.some.injEq] at hnext
    subst hnext
    exact h.wakeup t (of_decide_eq_true henabled)
  | quit t =>
    simp only [next, Option.some.injEq] at hnext
    subst hnext
    exact h.quit t henabled
  | quitWakeup t =>
    simp only [next, Option.some.injEq] at hnext
    subst hnext
    exact h.quitWakeup t (of_decide_eq_true henabled)
  | updateChannel c =>
    simp only [next, Option.map_eq_some_iff] at hnext
    obtain ⟨_, _, rfl⟩ := hnext
    exact { h with }
  | removeChannel c =>
    simp only [next, Option.map_eq_some_iff] at hnext
    obtain ⟨_, _, rfl⟩ := hnext
    exact { h with }
  | runAt time cb timer clock => simp [next, runAt, h.timerQueue] at hnext
  | runAfter delay cb timer clock => simp [next, runAfter, runAt, h.timerQueue] at hnext
  | enter =>
    simp only [next, Option.some.injEq] at hnext
    subst hnext
    obtain ⟨hidle, hpc⟩ := atPc_iff.mp henabled
    exact
      { h with
        batch := fun _ _ => h.batch (by simp [hpc]) (by simp [hpc])
        calling := by simp [LoopPc.calling]
        caller := fun hne => absurd hidle hne
        -- every functor pending at this moment is a stale one
        fresh := fun _ hlt => absurd hlt (Nat.lt_irrefl _) }
  | clearQuit =>
    simp only [next, Option.some.injEq] at hnext
    subst hnext
    obtain ⟨hidle, hpc⟩ := atPc_iff.mp henabled
    apply h.control hidle
    . right
      apply h.batch <;> simp [hpc]
    . simp [LoopPc.calling]
    . simp [hpc, LoopPc.swapped]
  | test =>
    obtain ⟨hidle, hpc⟩ := atPc_iff.mp henabled
    simp only [next] at hnext
    split at hnext
    all_goals
      simp only [Option.some.injEq] at hnext
      subst hnext
      apply h.control hidle
      . right
        apply h.batch <;> simp [hpc]
      . simp [LoopPc.calling]
      . simp [hpc, LoopPc.swapped]
  | poll =>
    simp only [next, Option.some.injEq] at hnext
    subst hnext
    obtain ⟨hidle, hpc⟩ := atPc_iff.mp henabled
    apply h.control hidle
    . right
      apply h.batch <;> simp [hpc]
    . simp [LoopPc.calling]
    . simp [hpc, LoopPc.swapped]
  | pollReturn ready =>
    simp only [next, Option.some.injEq] at hnext
    subst hnext
    obtain ⟨hidle, hpc⟩ := atPc_iff.mp (Bool.and_eq_true_iff.mp henabled).1
    apply h.control hidle
    . right
      apply h.batch <;> simp [hpc]
    . simp [LoopPc.calling]
    . simp [LoopPc.swapped]
  | dispatch =>
    obtain ⟨hidle, hpc⟩ := atPc_iff.mp henabled
    simp only [next] at hnext
    split at hnext
    . simp at hnext
    . split at hnext
      . simp only [Option.some.injEq] at hnext
        subst hnext
        exact { h with fresh := by simp [hpc, LoopPc.swapped] }
      . simp only [Option.some.injEq] at hnext
        subst hnext
        apply h.control hidle
        . right
          apply h.batch <;> simp [hpc]
        . simp [LoopPc.calling]
        . simp [LoopPc.swapped]
  | callbackReturn =>
    simp only [next, Option.some.injEq] at hnext
    subst hnext
    obtain ⟨hidle, hpc⟩ := atPc_iff.mp henabled
    apply h.control hidle
    . right
      apply h.batch <;> simp [hpc]
    . simp [LoopPc.calling]
    . simp [LoopPc.swapped]
  | startCalling =>
    simp only [next, Option.some.injEq] at hnext
    subst hnext
    obtain ⟨hidle, hpc⟩ := atPc_iff.mp (Bool.and_eq_true_iff.mp henabled).1
    exact
      { h with
        batch := fun _ _ => h.batch (by simp [hpc]) (by simp [hpc])
        calling := fun _ => rfl
        caller := fun hne => absurd hidle hne
        fresh := by simp [LoopPc.swapped] }
  | swap =>
    simp only [next, Option.some.injEq] at hnext
    subst hnext
    obtain ⟨hidle, hpc⟩ := atPc_iff.mp henabled
    have hempty : s.loop.functors = [] := by
      apply h.batch <;> simp [hpc]
    exact
      { h with
        order := by
          have horder := h.order
          rw [hempty] at horder
          simpa [swapFunctors] using horder
        batch := by simp
        calling := fun _ => h.calling (by simp [hpc, LoopPc.calling])
        caller := fun hne => absurd hidle hne
        fresh := by simp [swapFunctors] }
  | runFunctor =>
    obtain ⟨hidle, hpc⟩ := atPc_iff.mp henabled
    simp only [next] at hnext
    split at hnext
    . simp at hnext
    . next functor rest heq =>
      simp only [Option.some.injEq] at hnext
      subst hnext
      exact
        { h with
          order := by
            have horder := h.order
            rw [heq] at horder
            simpa using horder
          batch := by simp
          calling := fun _ => h.calling (by simp [hpc, LoopPc.calling])
          caller := fun hne => absurd hidle hne
          fresh := fun _ => h.fresh (by simp [hpc, LoopPc.swapped]) }
  | functorReturn =>
    simp only [next, Option.some.injEq] at hnext
    subst hnext
    obtain ⟨hidle, hpc⟩ := atPc_iff.mp henabled
    apply h.control hidle
    . left
      rfl
    . intro _
      apply h.calling
      simp [hpc, LoopPc.calling]
    . simp [hpc, LoopPc.swapped]
  | endCalling =>
    simp only [next, Option.some.injEq] at hnext
    subst hnext
    obtain ⟨hpc, hempty⟩ := Bool.and_eq_true_iff.mp henabled
    obtain ⟨hidle, hpc⟩ := atPc_iff.mp hpc
    exact
      { h with
        batch := fun _ _ => List.isEmpty_iff.mp hempty
        calling := by simp [LoopPc.calling]
        caller := fun hne => absurd hidle hne
        fresh := fun _ => h.fresh (by simp [hpc, LoopPc.swapped]) }

/--
How a step of any other kind than entering the loop or storing `true` to `quit_` moves the loop thread
and changes `quit_`: only `clearQuit` does that, and a new iteration begins only while `quit_` is
`false`.
-/
theorem step_control {s s' : Threads φ τ} {a : Label φ τ}
    (hstep : (system φ τ).step s a = some s') (henter : a ≠ .enter) (hquit : ∀ t, a ≠ .quit t)
    : (a = .clearQuit ∧ s.pc = .entered ∧ s'.pc = .test ∧ s'.loop.quit_ = false)
      ∨ (s'.loop.quit_ = s.loop.quit_
          ∧ (s.pc = .outside ↔ s'.pc = .outside ∧ ¬(s.pc = .test ∧ s.loop.quit_ = true))
          ∧ (s.pc = .entered ↔ s'.pc = .entered)
          ∧ (s'.pc = .aboutToPoll → s.pc = .aboutToPoll ∨ s.loop.quit_ = false)
          ∧ (a = .poll → s.pc = .aboutToPoll ∧ s'.pc = .polling)) := by
  obtain ⟨henabled, hnext⟩ := LTS.guarded_step.mp hstep
  cases a with
  | enter => exact absurd rfl henter
  | quit t => exact absurd rfl (hquit t)
  | clearQuit =>
    simp only [next, Option.some.injEq] at hnext
    subst hnext
    exact .inl ⟨rfl, (atPc_iff.mp henabled).2, rfl, rfl⟩
  | updateChannel | removeChannel =>
    simp only [next, Option.map_eq_some_iff] at hnext
    obtain ⟨_, _, rfl⟩ := hnext
    right
    simp +contextual
  | runAt time cb timer clock | runAfter time cb timer clock =>
    simp only [next, runAfter, runAt, Option.map_eq_some_iff, Option.bind_eq_some_iff] at hnext
    obtain ⟨_, ⟨_, _, _, _, rfl⟩, rfl⟩ := hnext
    right
    simp +contextual
  | push | quitWakeup =>
    simp only [next, Option.some.injEq] at hnext
    subst hnext
    right
    refine ⟨?_, by simp +contextual⟩
    simp [pushFunctor, apply_ite EventLoop.quit_]
  | wakeup =>
    simp only [next, Option.some.injEq, wakeupIfNeeded] at hnext
    subst hnext
    right
    refine ⟨?_, by simp +contextual⟩
    simp [apply_ite EventLoop.quit_]
  | test =>
    have hpc := (atPc_iff.mp henabled).2
    simp only [next] at hnext
    split at hnext
    all_goals
      next hseen =>
      simp only [Option.some.injEq] at hnext
      subst hnext
      right
      simp [hpc, hseen]
  | dispatch =>
    have hpc := (atPc_iff.mp henabled).2
    simp only [next] at hnext
    split at hnext
    . simp at hnext
    . split at hnext
      all_goals
        simp only [Option.some.injEq] at hnext
        subst hnext
        right
        simp [hpc, handleRead]
  | runFunctor =>
    have hpc := (atPc_iff.mp henabled).2
    simp only [next] at hnext
    split at hnext
    . simp at hnext
    . simp only [Option.some.injEq] at hnext
      subst hnext
      right
      simp [hpc]
  | pollReturn | startCalling | endCalling =>
    have hpc := (atPc_iff.mp (Bool.and_eq_true_iff.mp henabled).1).2
    simp only [next, Option.some.injEq] at hnext
    subst hnext
    right
    simp [hpc]
  | poll | callbackReturn | swap | functorReturn =>
    have hpc := (atPc_iff.mp henabled).2
    simp only [next, Option.some.injEq] at hnext
    subst hnext
    right
    simp [hpc, swapFunctors]

theorem step_quit {s s' : Threads φ τ} {t : Thread τ}
    (hstep : (system φ τ).step s (.quit t) = some s') : s'.loop.quit_ = true ∧ s'.pc = s.pc := by
  have hnext := (LTS.guarded_step.mp hstep).2
  simp only [next, Option.some.injEq] at hnext
  subst hnext
  simp

theorem step_enter {s s' : Threads φ τ} (hstep : (system φ τ).step s .enter = some s')
    : s'.loop.quit_ = s.loop.quit_ ∧ s'.pc = .entered := by
  have hnext := (LTS.guarded_step.mp hstep).2
  simp only [next, Option.some.injEq] at hnext
  subst hnext
  simp

theorem inv_of_reachable {s : Threads φ τ} (h : (system φ τ).Reachable s) : s.Inv :=
  LTS.Reachable.invariant Inv (fun _ => Inv.init) (fun _ _ _ => Inv.step) h

end Threads

end EventLoop

end MyMuduo
