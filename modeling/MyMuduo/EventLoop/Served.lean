import Mathlib.Order.RelClasses
import MyMuduo.EventLoop.Invariant
import MyMuduo.Transition.Execution

/-!
This module contains that what is queued while the loop runs is executed at last, or the loop returns: in no order of
the steps does the loop thread sleep over a functor.
-/

namespace MyMuduo

namespace EventLoop

variable {φ τ : Type}

-- the statements of `loop` and of `doPendingFunctors`, and the returns from what they call
def Label.isStatement : Label φ τ → Bool
  | .clearQuit | .test | .poll | .pollReturn _ | .dispatch | .callbackReturn | .startCalling | .swap
  | .runFunctor | .functorReturn | .endCalling => true
  | _ => false

/--
How far it is to the next swap.
-/
def LoopPc.phase : LoopPc → Nat
  | .outside => 0
  | .swapping => 1
  | .events | .callback => 2
  | .polling => 3
  | .aboutToPoll => 4
  | .test => 5
  | .functors | .functor => 6
  | .entered => 7

namespace Threads

-- the thread is not in `loop`, or nothing makes `epoll_wait` return
def waits (s : Threads φ τ) : Bool :=
  s.pc = .outside || s.pc = .polling && s.loop.wakeupFd = 0

-- what is left to do before the next phase
def work (s : Threads φ τ) : Nat :=
  match s.pc with
  | .functors => 2 * s.loop.functors.length
  | .functor => 2 * s.loop.functors.length + 1
  | .events => 2 * s.loop.activeChannels.length
  | .callback => 2 * s.loop.activeChannels.length + 1
  | _ => 0

/--
The steps of the loop thread ahead of the functor that was queued behind `j` others: until the swap, and
then in the batch.
-/
def rank (j : Nat) (s : Threads φ τ) : Nat × Nat :=
  if j < s.executed.length + s.loop.functors.length then
    (0, 2 * (j - s.executed.length) + if s.pc = .functor then 1 else 0)
  else
    (s.pc.phase, s.work)

/--
The functor waits, and was not there when `loop` was entered.
-/
structure Waiting (j : Nat) (s : Threads φ τ) : Prop where
  inside : s.pc ≠ .outside
  queued : j < s.queued.length
  executed : s.executed.length ≤ j
  fresh : s.executed.length + s.loop.functors.length ≤ j →
    s.executed.length + s.loop.functors.length + s.stale ≤ j

variable {s s' : Threads φ τ} {a : Label φ τ} {j : Nat}

/--
What a step leaves that is none of the loop's own.
-/
structure Aside (s s' : Threads φ τ) : Prop where
  pc : s'.pc = s.pc
  executed : s'.executed = s.executed
  functors : s'.loop.functors = s.loop.functors
  activeChannels : s'.loop.activeChannels = s.loop.activeChannels
  stale : s'.stale = s.stale
  queued : s.queued <+: s'.queued
  pendingFunctors : s.loop.pendingFunctors <+: s'.loop.pendingFunctors
  wakeupFd : 0 < s.loop.wakeupFd → 0 < s'.loop.wakeupFd

theorem Aside.rank (h : Aside s s') (j : Nat) : rank j s' = rank j s := by
  simp only [Threads.rank, work, h.pc, h.executed, h.functors, h.activeChannels]

theorem Aside.waiting (h : Aside s s') (hwaiting : s.Waiting j) : s'.Waiting j := by
  refine ⟨?_, ?_, ?_, ?_⟩
  . rw [h.pc]
    exact hwaiting.inside
  . exact Nat.lt_of_lt_of_le hwaiting.queued h.queued.length_le
  . rw [h.executed]
    exact hwaiting.executed
  . rw [h.executed, h.functors, h.stale]
    exact hwaiting.fresh

theorem aside [DecidableEq τ] (hpc : s.pc ≠ .outside) (ha : a.isStatement = false)
    (hstep : (system φ τ).step s a = some s') : Aside s s' := by
  obtain ⟨henabled, hnext⟩ := LTS.guarded_step.mp hstep
  cases a with
  | push t cb =>
    simp only [next, Option.some.injEq] at hnext
    subst hnext
    exact ⟨rfl, rfl, rfl, rfl, rfl, List.prefix_append _ _, List.prefix_append _ _, id⟩
  | wakeup t =>
    simp only [next, Option.some.injEq] at hnext
    subst hnext
    unfold wakeupIfNeeded
    split
    . refine ⟨rfl, rfl, by simp, ?_, rfl, List.prefix_refl _, by simp, fun _ => wakeupFd_wakeup_pos _⟩
      unfold EventLoop.wakeup
      split <;> rfl
    . exact ⟨rfl, rfl, rfl, rfl, rfl, List.prefix_refl _, List.prefix_refl _, id⟩
  | quit t =>
    simp only [next, Option.some.injEq] at hnext
    subst hnext
    exact ⟨rfl, rfl, rfl, rfl, rfl, List.prefix_refl _, List.prefix_refl _, id⟩
  | quitWakeup t =>
    simp only [next, Option.some.injEq] at hnext
    subst hnext
    split
    . exact ⟨rfl, rfl, rfl, rfl, rfl, List.prefix_refl _, List.prefix_refl _, id⟩
    . refine ⟨rfl, rfl, by simp, ?_, rfl, List.prefix_refl _, by simp, fun _ => wakeupFd_wakeup_pos _⟩
      unfold EventLoop.wakeup
      split <;> rfl
  | updateChannel c | removeChannel c =>
    simp only [next, Option.map_eq_some_iff] at hnext
    obtain ⟨_, _, rfl⟩ := hnext
    exact ⟨rfl, rfl, rfl, rfl, rfl, List.prefix_refl _, List.prefix_refl _, id⟩
  | runAt time cb timer clock | runAfter delay cb timer clock =>
    simp only [next, runAfter, runAt, Option.map_eq_some_iff, Option.bind_eq_some_iff] at hnext
    obtain ⟨_, ⟨_, _, _, _, rfl⟩, rfl⟩ := hnext
    exact ⟨rfl, rfl, rfl, rfl, rfl, List.prefix_refl _, List.prefix_refl _, id⟩
  | enter => exact absurd (atPc_iff.mp henabled).2 hpc
  | clearQuit | test | poll | pollReturn | dispatch | callbackReturn | startCalling | swap | runFunctor
  | functorReturn | endCalling => cases ha

-- no step but `enter` brings the thread into `loop`
theorem outside_of_step [DecidableEq τ] (hpc : s.pc = .outside) (henter : a ≠ .enter)
    (hstep : (system φ τ).step s a = some s') : s'.pc = .outside := by
  by_cases hquit : ∃ t, a = .quit t
  . obtain ⟨t, rfl⟩ := hquit
    exact (step_quit hstep).2.trans hpc
  . obtain ⟨_, hentered, _⟩ | ⟨_, hinside, _⟩ := step_control hstep henter fun t heq => hquit ⟨t, heq⟩
    . rw [hpc] at hentered
      cases hentered
    . exact (hinside.mp hpc).1

theorem rank_of_pending (h : s.executed.length + s.loop.functors.length ≤ j) : rank j s = (s.pc.phase, s.work) := by
  rw [rank, if_neg (Nat.not_lt.mpr h)]

theorem rank_of_batch (h : j < s.executed.length + s.loop.functors.length)
    : rank j s = (0, 2 * (j - s.executed.length) + if s.pc = .functor then 1 else 0) := by
  rw [rank, if_pos h]

-- a statement that is about the whole loop, between two batches
theorem Waiting.control (h : s.Waiting j) (hempty : s.loop.functors = []) (hpc : s'.pc ≠ .outside)
    (hqueued : s'.queued = s.queued) (hexecuted : s'.executed = s.executed) (hfunctors : s'.loop.functors = [])
    (hstale : s'.stale = s.stale)
    (hlower : s'.pc.phase < s.pc.phase ∨ s'.pc.phase = s.pc.phase ∧ s'.work < s.work)
    : s'.Waiting j ∧ Prod.Lex (· < ·) (· < ·) (rank j s') (rank j s) := by
  have hexecuted_le := h.executed
  have hfresh := h.fresh
  rw [hempty] at hfresh
  refine ⟨⟨hpc, ?_, ?_, ?_⟩, ?_⟩
  . rw [hqueued]
    exact h.queued
  . rw [hexecuted]
    exact hexecuted_le
  . rw [hexecuted, hfunctors, hstale]
    exact hfresh
  . rw [rank_of_pending (by simpa [hexecuted, hfunctors] using hexecuted_le),
      rank_of_pending (by simpa [hempty] using hexecuted_le)]
    obtain hlower | ⟨heq, hlower⟩ := hlower
    . exact .left _ _ hlower
    . rw [heq]
      exact .right _ hlower

variable [DecidableEq τ]

/--
Every statement of the loop brings a waiting functor nearer, unless it executes it or ends the loop.
-/
theorem Waiting.statement (hinv : s.Inv) (h : s.Waiting j) (ha : a.isStatement = true)
    (hstep : (system φ τ).step s a = some s')
    : (s'.pc = .outside ∨ j < s'.executed.length)
        ∨ s'.Waiting j ∧ Prod.Lex (· < ·) (· < ·) (rank j s') (rank j s) := by
  obtain ⟨henabled, hnext⟩ := LTS.guarded_step.mp hstep
  have hexecuted := h.executed
  have hfresh := h.fresh
  cases a with
  | clearQuit | poll | callbackReturn =>
    have hpc := (atPc_iff.mp henabled).2
    have hempty : s.loop.functors = [] := by
      apply hinv.batch <;> simp [hpc]
    simp only [next, Option.some.injEq] at hnext
    subst hnext
    refine .inr (h.control hempty (by simp) rfl rfl hempty rfl ?_)
    simp [hpc, LoopPc.phase, work]
  | pollReturn | startCalling =>
    have hpc := (atPc_iff.mp (Bool.and_eq_true_iff.mp henabled).1).2
    have hempty : s.loop.functors = [] := by
      apply hinv.batch <;> simp [hpc]
    simp only [next, Option.some.injEq] at hnext
    subst hnext
    refine .inr (h.control hempty (by simp) rfl rfl hempty rfl (.inl ?_))
    simp [hpc, LoopPc.phase]
  | test =>
    have hpc := (atPc_iff.mp henabled).2
    have hempty : s.loop.functors = [] := by
      apply hinv.batch <;> simp [hpc]
    simp only [next] at hnext
    split at hnext
    all_goals
      simp only [Option.some.injEq] at hnext
      subst hnext
    . exact .inl (.inl rfl)
    . refine .inr (h.control hempty (by simp) rfl rfl hempty rfl (.inl ?_))
      simp [hpc, LoopPc.phase]
  | dispatch =>
    have hpc := (atPc_iff.mp henabled).2
    have hempty : s.loop.functors = [] := by
      apply hinv.batch <;> simp [hpc]
    simp only [next] at hnext
    split at hnext
    . cases hnext
    . next channel rest hactive =>
      split at hnext
      all_goals
        simp only [Option.some.injEq] at hnext
        subst hnext
        refine .inr (h.control hempty (by simp [hpc]) rfl rfl hempty rfl (.inr ?_))
        simp [hpc, LoopPc.phase, work, handleRead, hactive]
        try omega
  | swap =>
    have hpc := (atPc_iff.mp henabled).2
    have hempty : s.loop.functors = [] := by
      apply hinv.batch <;> simp [hpc]
    simp only [next, Option.some.injEq] at hnext
    subst hnext
    have hbatch : j < s.executed.length + s.loop.pendingFunctors.length := by
      have hqueued := h.queued
      rw [← hinv.order, hempty, List.append_nil, List.length_append] at hqueued
      exact hqueued
    refine .inr ⟨⟨by simp, h.queued, hexecuted, fun hle => absurd hbatch (Nat.not_lt.mpr hle)⟩, ?_⟩
    rw [rank_of_batch hbatch, rank_of_pending (by simpa [hempty] using hexecuted)]
    refine .left _ _ ?_
    simp [hpc, LoopPc.phase]
  | runFunctor =>
    have hpc := (atPc_iff.mp henabled).2
    simp only [next] at hnext
    split at hnext
    . cases hnext
    . next functor rest hfunctors =>
      simp only [Option.some.injEq] at hnext
      subst hnext
      rw [hfunctors, List.length_cons] at hfresh
      by_cases hlast : j = s.executed.length
      . exact .inl (.inr (by simp [hlast]))
      . have hdone : (s.executed ++ [functor]).length = s.executed.length + 1 := List.length_append
        have hleft : s.loop.functors.length = rest.length + 1 := by
          rw [hfunctors, List.length_cons]
        refine .inr ⟨⟨by simp, h.queued, ?_, ?_⟩, ?_⟩
        . dsimp only
          omega
        . dsimp only
          omega
        . by_cases hbatch : j < s.executed.length + s.loop.functors.length
          . rw [rank_of_batch hbatch, rank_of_batch (by dsimp only; omega)]
            refine .right _ ?_
            simp only [hdone, hpc, if_true, reduceCtorEq, if_false]
            omega
          . rw [rank_of_pending (Nat.not_lt.mp hbatch), rank_of_pending (by dsimp only; omega)]
            simp only [hpc, work, LoopPc.phase, hleft]
            exact .right _ (by omega)
  | functorReturn =>
    have hpc := (atPc_iff.mp henabled).2
    simp only [next, Option.some.injEq] at hnext
    subst hnext
    refine .inr ⟨⟨by simp, h.queued, hexecuted, hfresh⟩, ?_⟩
    by_cases hbatch : j < s.executed.length + s.loop.functors.length
    . rw [rank_of_batch hbatch, rank_of_batch (by exact hbatch)]
      refine .right _ ?_
      simp [hpc]
    . rw [rank_of_pending (Nat.not_lt.mp hbatch), rank_of_pending (by exact Nat.not_lt.mp hbatch)]
      simp only [hpc, work, LoopPc.phase]
      exact .right _ (by omega)
  | endCalling =>
    obtain ⟨hpc, hempty⟩ := Bool.and_eq_true_iff.mp henabled
    have hpc := (atPc_iff.mp hpc).2
    have hempty := List.isEmpty_iff.mp hempty
    simp only [next, Option.some.injEq] at hnext
    subst hnext
    refine .inr (h.control hempty (by simp) rfl rfl hempty rfl (.inl ?_))
    simp [hpc, LoopPc.phase]
  | push | wakeup | quit | quitWakeup | updateChannel | removeChannel | runAt | runAfter | enter => cases ha

/--
What the scheduler and the kernel see to: a thread that has pushed a functor goes on to `wakeup`, and the loop thread
goes on unless it waits.
-/
structure Fair (E : (system φ τ).Execution) : Prop where
  caller : ∀ n t, (E.state n).callers t = .pushed → ∃ m, n ≤ m ∧ E.label m = .wakeup t
  loop : ∀ n, (∀ m, n ≤ m → (E.state m).waits = false) → ∃ m, n ≤ m ∧ (E.label m).isStatement = true

variable {E : (system φ τ).Execution}

-- while a functor waits the loop thread takes a statement at last, since the counter is not zero for ever
theorem Fair.statement (hfair : Fair E) {n : Nat} (hwaiting : ∀ m, n ≤ m → (E.state m).Waiting j)
    : ∃ m, n ≤ m ∧ (E.label m).isStatement = true := by
  by_cases hsome : ∃ m, n ≤ m ∧ (E.label m).isStatement = true
  . exact hsome
  . have haside : ∀ m, n ≤ m → Aside (E.state m) (E.state (m + 1)) := by
      intro m hle
      refine aside (hwaiting m hle).inside ?_ (E.step m)
      simpa using fun hstatement => hsome ⟨m, hle, hstatement⟩
    have hpc : ∀ m, n ≤ m → (E.state m).pc = (E.state n).pc :=
      fun m hle => E.always_of_step (P := fun s => s.pc = (E.state n).pc) rfl
        (fun m hle heq => (haside m hle).pc.trans heq) hle
    by_cases hpolling : (E.state n).pc = .polling
    . obtain ⟨k, hle, hcounter⟩ : ∃ k, n ≤ k ∧ 0 < (E.state k).loop.wakeupFd := by
        have hinv := inv_of_reachable (E.reachable n)
        have hempty : (E.state n).loop.functors = [] := by
          apply hinv.batch <;> simp [hpolling]
        have hfresh := (hwaiting n (Nat.le_refl n)).fresh
        have hexecuted := (hwaiting n (Nat.le_refl n)).executed
        have hqueued := (hwaiting n (Nat.le_refl n)).queued
        rw [← hinv.order, hempty, List.append_nil, List.length_append] at hqueued
        rw [hempty, List.length_nil, Nat.add_zero] at hfresh
        have hstale : (E.state n).stale < (E.state n).loop.pendingFunctors.length := by
          have := hfresh hexecuted
          omega
        obtain hcounter | ⟨t, ht⟩ := hinv.fresh (by simp [hpolling, LoopPc.swapped]) hstale
        . exact ⟨n, Nat.le_refl n, hcounter⟩
        . obtain ⟨m, hle, hlabel⟩ := hfair.caller n t ht
          have hstep := E.step m
          rw [hlabel] at hstep
          obtain ⟨henabled, hnext⟩ := LTS.guarded_step.mp hstep
          have hother : t ≠ .loop := by
            rintro rfl
            have huser := (inv_of_reachable (E.reachable m)).caller (by
              rw [of_decide_eq_true henabled]
              simp)
            rw [hpc m hle, hpolling] at huser
            cases huser
          simp only [next, Option.some.injEq] at hnext
          refine ⟨m + 1, Nat.le_succ_of_le hle, ?_⟩
          rw [← hnext]
          simp only [wakeupIfNeeded, hother, decide_false, Bool.not_false, Bool.true_or, if_true]
          exact wakeupFd_wakeup_pos _
      have hcounter : ∀ m, k ≤ m → 0 < (E.state m).loop.wakeupFd :=
        fun m hle' => E.always_of_step (P := fun s => 0 < s.loop.wakeupFd) hcounter
          (fun m hle' => (haside m (Nat.le_trans hle hle')).wakeupFd) hle'
      have hgoes : ∀ m, k ≤ m → (E.state m).waits = false := by
        intro m hle'
        have hpositive := hcounter m hle'
        simp only [waits, hpc m (Nat.le_trans hle hle'), hpolling, Bool.or_eq_false_iff, Bool.and_eq_false_iff,
          decide_eq_false_iff_not]
        exact ⟨by simp, .inr (by omega)⟩
      obtain ⟨m, hle', hstatement⟩ := hfair.loop k hgoes
      exact ⟨m, Nat.le_trans hle hle', hstatement⟩
    . have hgoes : ∀ m, n ≤ m → (E.state m).waits = false := by
        intro m hle
        have hinside := (hwaiting n (Nat.le_refl n)).inside
        simp [waits, hpc m hle, hpolling, hinside]
      exact hfair.loop n hgoes

theorem Fair.leadsTo (hfair : Fair E) (j : Nat)
    : E.LeadsTo (Waiting j) fun s => s.pc = .outside ∨ j < s.executed.length := by
  have hwf : WellFounded (Prod.Lex (α := Nat) (β := Nat) (· < ·) (· < ·)) := Nat.lt_wfRel.wf.prod_lex Nat.lt_wfRel.wf
  refine LTS.Execution.leadsTo_of_rank hwf (rank j) (fun a => a.isStatement = true) ?_
    fun n hwaiting => hfair.statement hwaiting
  intro n hwaiting
  by_cases ha : (E.label n).isStatement = true
  . obtain hgoal | ⟨hwaiting', hlower⟩ := hwaiting.statement (inv_of_reachable (E.reachable n)) ha (E.step n)
    . exact .inl hgoal
    . exact .inr ⟨hwaiting', .inl hlower⟩
  . have haside := aside hwaiting.inside (by simpa using ha) (E.step n)
    exact .inr ⟨haside.waiting hwaiting, .inr ⟨haside.rank j, ha⟩⟩

-- a statement takes nothing from the pending functors, but for the swap
theorem stale_statement (ha : a.isStatement = true) (hstep : (system φ τ).step s a = some s')
    : s'.stale = 0 ∨ s'.stale = s.stale ∧ s'.loop.pendingFunctors = s.loop.pendingFunctors := by
  obtain ⟨_, hnext⟩ := LTS.guarded_step.mp hstep
  cases a with
  | clearQuit | poll | pollReturn | callbackReturn | startCalling | functorReturn | endCalling =>
    simp only [next, Option.some.injEq] at hnext
    subst hnext
    exact .inr ⟨rfl, rfl⟩
  | swap =>
    simp only [next, Option.some.injEq] at hnext
    subst hnext
    exact .inl rfl
  | test =>
    simp only [next] at hnext
    split at hnext
    all_goals
      simp only [Option.some.injEq] at hnext
      subst hnext
      exact .inr ⟨rfl, rfl⟩
  | dispatch =>
    simp only [next] at hnext
    split at hnext
    . cases hnext
    . split at hnext
      all_goals
        simp only [Option.some.injEq] at hnext
        subst hnext
        exact .inr ⟨rfl, rfl⟩
  | runFunctor =>
    simp only [next] at hnext
    split at hnext
    . cases hnext
    . simp only [Option.some.injEq] at hnext
      subst hnext
      exact .inr ⟨rfl, rfl⟩
  | push | wakeup | quit | quitWakeup | updateChannel | removeChannel | runAt | runAfter | enter => cases ha

-- what was pending when `loop` was entered is still pending until the swap
theorem stale_le (hs : (system φ τ).Reachable s) (hpc : s.pc ≠ .outside)
    : s.stale ≤ s.loop.pendingFunctors.length := by
  have hstale : s.pc ≠ .outside → s.stale ≤ s.loop.pendingFunctors.length := by
    apply hs.invariant fun s => s.pc ≠ .outside → s.stale ≤ s.loop.pendingFunctors.length
    . intro s hinit hpc
      exact absurd hinit.2.1 hpc
    . intro s a s' hstale hstep hpc'
      by_cases hpc : s.pc = .outside
      . by_cases henter : a = .enter
        . subst henter
          have hnext := (LTS.guarded_step.mp hstep).2
          simp only [next, Option.some.injEq] at hnext
          subst hnext
          exact Nat.le_refl _
        . exact absurd (outside_of_step hpc henter hstep) hpc'
      . by_cases ha : a.isStatement = true
        . obtain hzero | ⟨heq, hpending⟩ := stale_statement ha hstep
          . rw [hzero]
            exact Nat.zero_le _
          . rw [heq, hpending]
            exact hstale hpc
        . have haside := aside hpc (by simpa using ha) hstep
          rw [haside.stale]
          exact Nat.le_trans (hstale hpc) haside.pendingFunctors.length_le
  exact hstale hpc

theorem queued_grows (hstep : (system φ τ).step s a = some s') : s.queued <+: s'.queued := by
  obtain ⟨hqueued, _⟩ | ⟨cb, hqueued, _⟩ | ⟨_, _, _, hqueued, _⟩ := next_history (LTS.guarded_step.mp hstep).2
  . exact hqueued ▸ List.prefix_refl _
  . exact hqueued ▸ List.prefix_append _ _
  . exact hqueued ▸ List.prefix_refl _

/--
A functor that is queued while the loop runs is executed, or the loop returns. No time-out of `epoll_wait` is needed
for it.
-/
theorem executed_at_last (E : (system φ τ).Execution) (hfair : Fair E) (n : Nat) (t : Thread τ) (cb : φ)
    (hpush : E.label n = .push t cb) (hpc : (E.state n).pc ≠ .outside)
    : ∃ m, n < m ∧ ((E.state m).pc = .outside
        ∨ (E.state m).executed[(E.state n).queued.length]? = some cb) := by
  have hinv := inv_of_reachable (E.reachable n)
  have hstale := stale_le (E.reachable n) hpc
  have hlengths := congrArg List.length hinv.order
  simp only [List.length_append] at hlengths
  have hstep := E.step n
  rw [hpush] at hstep
  have haside := aside hpc rfl hstep
  have hqueued : (E.state (n + 1)).queued = (E.state n).queued ++ [cb] := by
    have hnext := (LTS.guarded_step.mp hstep).2
    simp only [next, Option.some.injEq] at hnext
    rw [← hnext]
  have hwaiting : (E.state (n + 1)).Waiting (E.state n).queued.length := by
    refine ⟨?_, ?_, ?_, ?_⟩
    . rw [haside.pc]
      exact hpc
    . simp [hqueued]
    . rw [haside.executed]
      omega
    . rw [haside.executed, haside.functors, haside.stale]
      omega
  obtain ⟨m, hle, hgoal⟩ := hfair.leadsTo _ (n + 1) hwaiting
  refine ⟨m, hle, hgoal.imp_right ?_⟩
  intro hlt
  have hprefix : (E.state (n + 1)).queued <+: (E.state m).queued :=
    E.always_of_step (P := fun s => (E.state (n + 1)).queued <+: s.queued) (List.prefix_refl _)
      (fun m _ hkept => hkept.trans (queued_grows (E.step m))) hle
  have horder := (inv_of_reachable (E.reachable m)).order
  have hexecuted : (E.state m).executed <+: (E.state m).queued := by
    rw [← horder, List.append_assoc]
    exact List.prefix_append _ _
  have hthere : (E.state n).queued.length < (E.state (n + 1)).queued.length := by
    simp [hqueued]
  have hlast : (E.state (n + 1)).queued[(E.state n).queued.length] = cb := by
    simp [hqueued]
  rw [List.getElem?_eq_getElem hlt, hexecuted.getElem hlt, ← hprefix.getElem hthere, hlast]

-- a functor is queued while the loop polls, and then the loop goes round
def pushWhilePolling : List (Label Nat Unit) :=
  [.enter, .clearQuit, .test, .poll, .push (.other ()) 7, .wakeup (.other ()), .pollReturn [1], .dispatch,
    .startCalling, .swap, .runFunctor, .functorReturn, .endCalling, .test, .poll]

def round : List (Label Nat Unit) :=
  [.pollReturn [], .startCalling, .swap, .endCalling, .test, .poll]

def polled : Threads Nat Unit :=
  ((system Nat Unit).run (initial (constructed Nat)) pushWhilePolling).get rfl

theorem initial_constructed : (system Nat Unit).init (initial (constructed Nat)) :=
  ⟨⟨3, 1, new_constructed⟩, rfl, fun _ => rfl, rfl, rfl⟩

theorem run_pushWhilePolling : (system Nat Unit).run (initial (constructed Nat)) pushWhilePolling = some polled :=
  rfl

theorem run_round : (system Nat Unit).run polled round = some polled :=
  rfl

def goingRound : (system Nat Unit).Execution :=
  .lasso initial_constructed run_pushWhilePolling run_round (by decide)

theorem goingRound_fair : Fair goingRound where
  caller := by
    intro n t hpushed
    -- no thread is in a call but ahead of the sixth step
    have hfirst : ∀ k, k < 15 → k ≠ 5 →
        ((system Nat Unit).run (initial (constructed Nat)) (pushWhilePolling.take k)).map
          (fun s => (s.callers .loop, s.callers (.other ()))) = some (.idle, .idle) := by
      decide
    have hround : ∀ k, k < 6 →
        ((system Nat Unit).run polled (round.take k)).map (fun s => (s.callers .loop, s.callers (.other ())))
          = some (.idle, .idle) := by
      decide
    have hnever : ¬((goingRound.state n).callers .loop, (goingRound.state n).callers (.other ())) = (.idle, .idle) := by
      intro hidle
      rw [Prod.mk.injEq] at hidle
      cases t with
      | loop => simp [hidle.1] at hpushed
      | other => simp [hidle.2] at hpushed
    obtain ⟨k, hlt, rfl, hstate⟩ | ⟨k, hlt, hstate⟩ :=
      LTS.Execution.lasso_state initial_constructed run_pushWhilePolling run_round (by decide) n
    . by_cases heq : n = 5
      . subst heq
        cases t with
        | loop => cases hpushed
        | other => exact ⟨5, Nat.le_refl 5, rfl⟩
      . have hcallers := hfirst n hlt heq
        rw [hstate, Option.map_some, Option.some.injEq] at hcallers
        exact absurd hcallers hnever
    . have hcallers := hround k hlt
      rw [hstate, Option.map_some, Option.some.injEq] at hcallers
      exact absurd hcallers hnever
  loop := by
    intro n _
    obtain ⟨m, hle, hlabel⟩ := LTS.Execution.lasso_recurs initial_constructed run_pushWhilePolling run_round
      (by decide) (a := .swap) (by simp [round]) n
    have hlabel : goingRound.label m = .swap := hlabel
    exact ⟨m, hle, by rw [hlabel]; rfl⟩

theorem executed_at_last_goingRound
    : ∃ m, 4 < m ∧ ((goingRound.state m).pc = .outside ∨ (goingRound.state m).executed[0]? = some 7) :=
  executed_at_last goingRound goingRound_fair 4 (.other ()) 7 rfl (by decide)

end Threads

end EventLoop

end MyMuduo
