import MyMuduo.Timer.Invariant

/-!
This module contains the batch of a `handleRead` and the log of its callbacks, when `handleRead` may be
called at any time: who is in the batch, and in which order it is run.
-/

namespace MyMuduo

namespace TimerLoop

open TimerQueue

universe u

variable {φ : Type u} {s s' : TimerLoop φ} {a : Label φ}

-- when the calls of `handleRead` began, the one in progress included
def starts (s : TimerLoop φ) : List Int :=
  s.ended ++ (s.frame.map (·.start)).toList

def runsIn (s : TimerLoop φ) (read : Nat) : List Run :=
  s.ran.filter fun r => r.read == read

theorem length_starts_of_none (h : s.frame = none) : s.starts.length = s.ended.length := by
  simp [starts, h]

theorem length_starts_of_some {f : HandleRead} (h : s.frame = some f)
    : s.starts.length = s.ended.length + 1 := by
  simp [starts, h]

/--
The entries of a batch are the timers it was taken from, and no two timers have one number.
-/
structure Batch (s : TimerLoop φ) : Prop where
  distinct : ∀ a b t t', s.queue.heap a = some t → s.queue.heap b = some t' → t.sequence = t'.sequence → a = b
  now : ∀ f, s.frame = some f → f.now = Timestamp.now f.start
  sorted : ∀ f, s.frame = some f → f.expired.Pairwise (· < ·)
  due : ∀ f, s.frame = some f → ∀ when_ timer, toLex (when_, timer) ∈ f.expired →
    when_ ≤ f.now ∧ ∃ t, s.queue.heap timer = some t ∧ t.expiration = when_

/--
The callbacks of one call are in the order of their expirations, and those still to be run are behind them.
-/
structure Log (s : TimerLoop φ) : Prop where
  reads : ∀ r ∈ s.ran, r.read < s.starts.length
  ordered : ∀ i, ((s.runsIn i).map (·.expiration)).Pairwise (· ≤ ·)
  ahead : ∀ f, s.frame = some f → ∀ r ∈ s.ran, r.read = s.ended.length → ∀ it ∈ f.todo,
    r.expiration ≤ (ofLex it).1
  queued : ∀ timer ∈ s.queued, ∀ t, s.queue.heap timer = some t → ∀ r ∈ s.ran, r.sequence ≠ t.sequence

theorem distinct_update {timer : Addr} {t : Timer φ} (h : s.Batch) (hinv : s.Inv)
    (ht : t.sequence = s.queue.numCreated + 1)
    : ∀ a b t₁ t₂, Function.update s.queue.heap timer (some t) a = some t₁ →
        Function.update s.queue.heap timer (some t) b = some t₂ → t₁.sequence = t₂.sequence → a = b := by
  have hold : ∀ b t', s.queue.heap b = some t' → t'.sequence ≠ t.sequence := by
    intro b t' ht'
    have := hinv.numbered b t' ht'
    omega
  intro a b t₁ t₂ h₁ h₂ heq
  by_cases ha : a = timer
  . by_cases hb : b = timer
    . rw [ha, hb]
    . rw [ha, Function.update_self, Option.some.injEq] at h₁
      rw [Function.update_of_ne hb] at h₂
      exact absurd (heq.symm.trans (congrArg Timer.sequence h₁.symm)) (hold b t₂ h₂)
  . rw [Function.update_of_ne ha] at h₁
    by_cases hb : b = timer
    . rw [hb, Function.update_self, Option.some.injEq] at h₂
      exact absurd (heq.trans (congrArg Timer.sequence h₂.symm)) (hold a t₁ h₁)
    . rw [Function.update_of_ne hb] at h₂
      exact h.distinct a b t₁ t₂ h₁ h₂ heq

theorem distinct_of_heirs (h : s.Batch) (hheirs : Heirs s s')
    (hnumCreated : s'.queue.numCreated = s.queue.numCreated)
    : ∀ a b t₁ t₂, s'.queue.heap a = some t₁ → s'.queue.heap b = some t₂ → t₁.sequence = t₂.sequence →
        a = b := by
  have hold : ∀ a t', s'.queue.heap a = some t' →
      ∃ t, s.queue.heap a = some t ∧ t'.sequence = t.sequence := by
    intro a t' ht'
    cases hheirs.heap a t' ht' with
    | inl hlived => exact hlived
    | inr hnew =>
      obtain ⟨_, hlt, hle⟩ := hnew
      omega
  intro a b t₁ t₂ h₁ h₂ heq
  obtain ⟨t₁', h₁', heq₁⟩ := hold a t₁ h₁
  obtain ⟨t₂', h₂', heq₂⟩ := hold b t₂ h₂
  exact h.distinct a b t₁' t₂' h₁' h₂' (heq₁ ▸ heq₂ ▸ heq)

theorem Batch.distinct_step (h : s.Batch) (hinv : s.Inv) (hsteps : Steps s a s')
    : ∀ a b t₁ t₂, s'.queue.heap a = some t₁ → s'.queue.heap b = some t₂ → t₁.sequence = t₂.sequence →
        a = b := by
  have hheirs := hsteps.heirs
  cases hsteps with
  | addTimer timer cb when_ interval t queue _ _ ht hsame =>
    rw [hsame.heap]
    exact distinct_update h hinv (ht ▸ rfl)
  | createTimer timer cb when_ interval t _ ht => exact distinct_update h hinv (ht ▸ rfl)
  | tick | report | return_ | run | cancelPending => exact distinct_of_heirs h hheirs rfl
  | addTimerInLoop timer t queued queue _ _ _ hsame => exact distinct_of_heirs h hheirs hsame.numCreated
  | cancelOther timerId => exact distinct_of_heirs h hheirs (s.queue.canceling_eq timerId).2.2.2
  | handleRead f queue _ _ _ _ _ _ _ hexpiry => exact distinct_of_heirs h hheirs hexpiry.numCreated
  | reset f queue _ _ _ hrenewed => exact distinct_of_heirs h hheirs hrenewed.numCreated

-- a timer of the batch or of a queued functor is out of reach of the user
theorem Steps.outside_kept {timer : Addr} {t : Timer φ} (hsteps : Steps s a s')
    (hmem : timer ∈ addrs s.batch ++ s.queued) (ht : s.queue.heap timer = some t)
    (hreset : a = .reset → timer ∉ addrs s.batch) : s'.queue.heap timer = some t :=
  hsteps.heap_kept ht (fun hnotMem => absurd hmem hnotMem) hreset

theorem Batch.step (h : s.Batch) (hinv : s.Inv) (hsteps : Steps s a s') : s'.Batch := by
  have hdistinct := h.distinct_step hinv hsteps
  have hkept : a ≠ .reset → ∀ f, s.frame = some f → ∀ when_ timer, toLex (when_, timer) ∈ f.expired →
      when_ ≤ f.now ∧ ∃ t, s'.queue.heap timer = some t ∧ t.expiration = when_ := by
    intro hne f hf when_ timer hmem
    obtain ⟨hdue, t, ht, hwhen⟩ := h.due f hf when_ timer hmem
    have hbatch : timer ∈ addrs s.batch := by
      rw [batch_of_some hf]
      exact mem_addrs.mpr ⟨when_, hmem⟩
    exact ⟨hdue, t, hsteps.outside_kept (List.mem_append_left _ hbatch) ht (fun heq => absurd heq hne), hwhen⟩
  cases hsteps with
  | tick | report | addTimer | createTimer | cancelPending | cancelOther =>
    exact ⟨hdistinct, h.now, h.sorted, hkept (by simp)⟩
  | addTimerInLoop => exact ⟨hdistinct, h.now, h.sorted, hkept (by simp)⟩
  | handleRead f queue _ hstart hnow _ _ _ _ hexpiry _ =>
    refine ⟨hdistinct, ?_, ?_, ?_⟩
    . rintro _ ⟨rfl⟩
      rw [hnow, hstart]
    . rintro _ ⟨rfl⟩
      exact hexpiry.sorted
    . rintro _ ⟨rfl⟩ when_ timer hmem
      obtain ⟨htimer, hdue⟩ := (hexpiry.mem when_ timer).mp hmem
      obtain ⟨t, ht, hwhen, _⟩ := (hinv.owns.timers when_ timer).mp htimer
      dsimp only
      rw [hexpiry.heap]
      exact ⟨hdue, t, ht, hwhen⟩
  | run f _ _ _ _ hf =>
    refine ⟨hdistinct, ?_, ?_, ?_⟩
    . rintro _ ⟨rfl⟩
      exact h.now f hf
    . rintro _ ⟨rfl⟩
      exact h.sorted f hf
    . rintro _ ⟨rfl⟩
      exact h.due f hf
  | return_ f hf =>
    refine ⟨hdistinct, ?_, ?_, ?_⟩
    . rintro _ ⟨rfl⟩
      exact h.now f hf
    . rintro _ ⟨rfl⟩
      exact h.sorted f hf
    . rintro _ ⟨rfl⟩
      exact h.due f hf
  | reset =>
    refine ⟨hdistinct, ?_, ?_, ?_⟩
    all_goals
      intro f hf
      cases hf

theorem Inv.not_queued {timer : Addr} (hinv : s.Inv) (hmem : timer ∈ addrs s.batch) : timer ∉ s.queued :=
  fun hqueued => (List.nodup_append.mp hinv.owns.nodup).2.2 timer hmem timer hqueued rfl

theorem Inv.queued_kept {timer : Addr} {t' : Timer φ} (hinv : s.Inv) (hsteps : Steps s a s')
    (hmem : timer ∈ s.queued) (ht' : s'.queue.heap timer = some t') : s.queue.heap timer = some t' := by
  have houtside : timer ∈ addrs s.batch ++ s.queued := List.mem_append_right _ hmem
  obtain ⟨t, ht⟩ := hinv.owns.live timer houtside
  have hkept := hsteps.outside_kept houtside ht fun _ hbatch => hinv.not_queued hbatch hmem
  rw [hkept] at ht'
  rw [ht, ht']

theorem Log.queued_step (h : s.Log) (hinv : s.Inv) (hbatch : s.Batch) (hsteps : Steps s a s')
    : ∀ timer ∈ s'.queued, ∀ t, s'.queue.heap timer = some t → ∀ r ∈ s'.ran, r.sequence ≠ t.sequence := by
  intro timer hmem t ht
  have hold : timer ∈ s.queued → s.queue.heap timer = some t :=
    fun hmem => hinv.queued_kept hsteps hmem ht
  cases hsteps with
  | createTimer b cb when_ interval t' halloc ht' =>
    rw [List.mem_append, List.mem_singleton] at hmem
    cases hmem with
    | inl hmem => exact h.queued timer hmem t (hold hmem)
    | inr heq =>
      subst heq
      have hself : (s.queue.allocated timer t').heap timer = some t' := Function.update_self ..
      intro r hr
      have hle := hinv.ranNumbered r hr
      have hsequence : t'.sequence = s.queue.numCreated + 1 := ht' ▸ rfl
      rw [hself, Option.some.injEq] at ht
      rw [← ht]
      omega
  | addTimerInLoop b t' queued queue _ hqueued =>
    have hmem : timer ∈ s.queued := by
      rw [hqueued]
      exact List.mem_cons_of_mem _ hmem
    exact h.queued timer hmem t (hold hmem)
  | run f when_ b t' todo hf _ htodo ht' =>
    intro r hr
    rw [List.mem_append, List.mem_singleton] at hr
    cases hr with
    | inl hr => exact h.queued timer hmem t (hold hmem) r hr
    | inr heq =>
      subst heq
      intro hsequence
      have heq : b = timer := hbatch.distinct b timer t' t ht' (hold hmem) hsequence
      have htodo' := (hinv.todo f hf).mem (htodo ▸ List.mem_cons_self)
      have hb : b ∈ addrs s.batch := by
        rw [batch_of_some hf]
        exact mem_addrs.mpr ⟨when_, htodo'⟩
      exact hinv.not_queued (heq ▸ hb) hmem
  | tick | report | addTimer | cancelPending | cancelOther | handleRead | return_ | reset =>
    exact h.queued timer hmem t (hold hmem)

theorem Log.step (h : s.Log) (hinv : s.Inv) (hbatch : s.Batch) (hsteps : Steps s a s') : s'.Log := by
  have hqueued := h.queued_step hinv hbatch hsteps
  cases hsteps with
  | tick | report | addTimer | createTimer | addTimerInLoop | cancelPending | cancelOther =>
    exact ⟨h.reads, h.ordered, h.ahead, hqueued⟩
  | handleRead f queue hframe =>
    have hreads := h.reads
    rw [length_starts_of_none hframe] at hreads
    refine ⟨?_, h.ordered, ?_, hqueued⟩
    . intro r hr
      rw [length_starts_of_some rfl]
      exact Nat.lt_succ_of_lt (hreads r hr)
    . intro _ _ r hr hread
      exact absurd (hreads r hr) (Nat.not_lt.mpr (Nat.le_of_eq hread.symm))
  | return_ f hf =>
    have hreads := h.reads
    rw [length_starts_of_some hf] at hreads
    refine ⟨?_, h.ordered, ?_, hqueued⟩
    . rw [length_starts_of_some rfl]
      exact hreads
    . rintro _ ⟨rfl⟩
      exact h.ahead f hf
  | reset f queue hf =>
    have hreads := h.reads
    rw [length_starts_of_some hf] at hreads
    refine ⟨?_, h.ordered, ?_, hqueued⟩
    . rw [length_starts_of_none rfl, List.length_append, List.length_singleton]
      exact hreads
    . intro _ hnone
      cases hnone
  | run f when_ timer t todo hf _ htodo ht =>
    have hreads := h.reads
    rw [length_starts_of_some hf] at hreads
    have hsuffix := hinv.todo f hf
    have hmem : toLex (when_, timer) ∈ f.expired := hsuffix.mem (htodo ▸ List.mem_cons_self)
    obtain ⟨_, t', ht', hwhen⟩ := hbatch.due f hf when_ timer hmem
    rw [ht, Option.some.injEq] at ht'
    subst ht'
    have hsorted : (toLex (when_, timer) :: todo).Pairwise (· < ·) :=
      htodo ▸ (hbatch.sorted f hf).sublist hsuffix.sublist
    refine ⟨?_, ?_, ?_, hqueued⟩
    . intro r hr
      rw [length_starts_of_some rfl]
      rw [List.mem_append, List.mem_singleton] at hr
      cases hr with
      | inl hr => exact hreads r hr
      | inr heq => simp [heq]
    . intro i
      have hold : ∀ r ∈ s.runsIn i, r.read = i ∧ r ∈ s.ran := by
        intro r hr
        rw [runsIn, List.mem_filter, beq_iff_eq] at hr
        exact hr.symm
      have hordered := h.ordered i
      simp only [runsIn, List.filter_append, List.map_append, List.pairwise_append] at hordered ⊢
      refine ⟨hordered, ?_, ?_⟩
      . by_cases heq : s.ended.length = i
        . simp [heq]
        . simp [heq]
      . intro x hx y hy
        obtain ⟨r, hr, rfl⟩ := List.mem_map.mp hx
        obtain ⟨r', hr', rfl⟩ := List.mem_map.mp hy
        rw [List.mem_filter, List.mem_singleton, beq_iff_eq] at hr'
        obtain ⟨hread, hran⟩ := hold r hr
        obtain ⟨rfl, hread'⟩ := hr'
        have hahead := h.ahead f hf r hran (hread.trans hread'.symm) _ (htodo ▸ List.mem_cons_self)
        exact hwhen ▸ hahead
    . rintro _ ⟨rfl⟩ r hr hread it hit
      rw [List.mem_append, List.mem_singleton] at hr
      cases hr with
      | inl hr => exact h.ahead f hf r hr hread it (htodo ▸ List.mem_cons_of_mem _ hit)
      | inr heq =>
        subst heq
        have hlt : (toLex (when_, timer) : Entry) < it := (List.pairwise_cons.mp hsorted).1 it hit
        have hle : when_ ≤ (ofLex it).1 := by
          cases Prod.Lex.lt_iff.mp hlt with
          | inl hlt => exact Int.le_of_lt hlt
          | inr heq => exact Int.le_of_eq heq.1
        exact hwhen ▸ hle

theorem batch_new (clock : Int) : (new clock : TimerLoop φ).Batch := by
  refine ⟨?_, ?_, ?_, ?_⟩
  . intro _ _ _ _ ht
    cases ht
  all_goals
    intro f hf
    cases hf

theorem log_new (clock : Int) : (new clock : TimerLoop φ).Log := by
  refine ⟨?_, ?_, ?_, ?_⟩
  . intro r hr
    cases hr
  . intro i
    exact List.Pairwise.nil
  . intro f hf
    cases hf
  . intro timer hmem
    cases hmem

theorem batch_reachable (h : (anyTime φ).Reachable s) : s.Inv ∧ s.Batch ∧ s.Log := by
  apply h.invariant fun s => s.Inv ∧ s.Batch ∧ s.Log
  . rintro _ ⟨clock, rfl⟩
    exact ⟨.new clock, batch_new clock, log_new clock⟩
  . rintro s a s' ⟨hinv, hbatch, hlog⟩ hstep
    have hsteps := hinv.steps_anyTime hstep
    exact ⟨hinv.of_steps hsteps, hbatch.step hinv hsteps, hlog.step hinv hbatch hsteps⟩

end TimerLoop

end MyMuduo
