import MyMuduo.Timer.Contract
import MyMuduo.Timer.Indices

/-!
This module contains what a cancellation stops: a timer in the sets, or one whose callback has already been
started in the batch in progress, but no timer that is still to be inserted or still to be run.
-/

namespace MyMuduo

namespace TimerLoop

open TimerQueue

universe u

variable {φ : Type u} {s s' : TimerLoop φ} {a : Label φ} {timerId : TimerId}

-- what `addTimer` returns, on the loop thread or on another one
def returned (s : TimerLoop φ) : Label φ → Option TimerId
  | .addTimer timer .. | .createTimer timer .. =>
    some { timer := timer, sequence := s.queue.numCreated + 1 }
  | _ => none

/--
The timer is neither held by the functor that is to insert it nor still to be run in the batch in progress.
-/
def Settled (s : TimerLoop φ) (timerId : TimerId) : Prop :=
  ∀ t, s.queue.heap timerId.timer = some t → t.sequence = timerId.sequence →
    timerId.timer ∉ s.queued ∧ ∀ f, s.frame = some f → timerId.timer ∉ addrs f.todo

/--
What a cancellation promises: from `s` on, where it has been executed, the callback is not started again and
the timer is not in the sets.
-/
structure StaysCancelled (s s' : TimerLoop φ) (timerId : TimerId) : Prop where
  notRun : s'.runsOf timerId.sequence = s.runsOf timerId.sequence
  notArmed : ∀ when_ timer t, toLex (when_, timer) ∈ s'.queue.timers → s'.queue.heap timer = some t →
    t.sequence ≠ timerId.sequence

-- no other timer has the sequence of the id, or will have
structure Issued (s : TimerLoop φ) (timerId : TimerId) : Prop where
  numCreated : timerId.sequence ≤ s.queue.numCreated
  addr : ∀ timer t, s.queue.heap timer = some t → t.sequence = timerId.sequence → timer = timerId.timer

theorem Issued.step (h : s.Issued timerId) (hsteps : Steps s a s') : s'.Issued timerId := by
  have hheirs := hsteps.heirs
  have hle := h.numCreated
  refine ⟨Nat.le_trans hle hheirs.numCreated, ?_⟩
  intro timer t' ht' hsequence
  cases hheirs.heap timer t' ht' with
  | inl hold =>
    obtain ⟨t, ht, heq⟩ := hold
    exact h.addr timer t ht (heq ▸ hsequence)
  | inr hnew => omega

theorem Inv.issued_allocated {timer : Addr} {t : Timer φ} (h : s.Inv)
    (hheap : s'.queue.heap = Function.update s.queue.heap timer (some t))
    (hnumCreated : s'.queue.numCreated = s.queue.numCreated + 1)
    : s'.Issued { timer := timer, sequence := s.queue.numCreated + 1 } := by
  refine ⟨Nat.le_of_eq hnumCreated.symm, ?_⟩
  intro b t' ht' hsequence
  by_contra hne
  rw [hheap, Function.update_of_ne hne] at ht'
  have := h.numbered b t' ht'
  dsimp only at hsequence
  omega

theorem Inv.issued_returned (h : s.Inv) (hsteps : Steps s a s') (hreturned : s.returned a = some timerId)
    : s'.Issued timerId := by
  cases hsteps with
  | addTimer timer cb when_ interval t queue _ _ _ hsame =>
    simp only [returned, Option.some.injEq] at hreturned
    subst hreturned
    exact h.issued_allocated hsame.heap hsame.numCreated
  | createTimer timer cb when_ interval t =>
    simp only [returned, Option.some.injEq] at hreturned
    subst hreturned
    exact h.issued_allocated rfl rfl
  | _ => cases hreturned

-- `cancelInLoop` knows that the callbacks of a batch are being run
def Calling (s : TimerLoop φ) : Prop :=
  ∀ f, s.frame = some f → s.queue.callingExpiredTimers = true

theorem Calling.step (h : s.Calling) (hsteps : Steps s a s') : s'.Calling := by
  cases hsteps with
  | tick | report | createTimer | cancelPending => exact h
  | addTimer timer cb when_ interval t queue _ _ _ hsame =>
    intro f hf
    exact hsame.callingExpiredTimers.trans (h f hf)
  | addTimerInLoop timer t queued queue _ _ _ hsame =>
    intro f hf
    exact hsame.callingExpiredTimers.trans (h f hf)
  | cancelOther timerId =>
    intro f hf
    have hcalling := h f hf
    dsimp only
    rw [canceling, if_pos hcalling]
    exact hcalling
  | handleRead f queue _ _ _ _ _ hcalling => exact fun _ _ => hcalling
  | run f _ _ _ _ hf => exact fun _ _ => h f hf
  | return_ f hf => exact fun _ _ => h f hf
  | reset =>
    intro f hf
    cases hf

theorem calling_anyTime (h : (anyTime φ).Reachable s) : s.Calling := by
  have hboth : s.Inv ∧ s.Calling := by
    apply h.invariant fun s => s.Inv ∧ s.Calling
    . rintro _ ⟨clock, rfl⟩
      refine ⟨.new clock, ?_⟩
      intro f hf
      cases hf
    . rintro s a s' ⟨hinv, hcalling⟩ hstep
      have hsteps := hinv.steps_anyTime hstep
      exact ⟨hinv.of_steps hsteps, hcalling.step hsteps⟩
  exact hboth.2

/-
A settled timer stays cancelled.
-/

/--
No timer has the sequence, or the one that has it is marked as cancelled and has had its turn in the batch.
-/
structure Gone (s : TimerLoop φ) (sequence : Nat) : Prop where
  numCreated : sequence ≤ s.queue.numCreated
  marked : ∀ timer t, s.queue.heap timer = some t → t.sequence = sequence →
    ∃ f, s.frame = some f ∧ timer ∈ addrs f.expired ∧ timer ∉ addrs f.todo
      ∧ toLex (timer, sequence) ∈ s.queue.cancelingTimers

variable {sequence : Nat}

theorem Gone.of_cancel (hinv : s.Inv) (hcalling : s.Calling) (hissued : s.Issued timerId)
    (hsettled : s.Settled timerId) (hsteps : Steps s (.cancel timerId) s') : s'.Gone timerId.sequence := by
  have hle := (hissued.step hsteps).numCreated
  have hissued' := hissued.step hsteps
  refine ⟨hle, ?_⟩
  intro timer t ht hsequence
  have heq := hissued'.addr timer t ht hsequence
  subst heq
  cases hsteps with
  | cancelPending timer t' =>
    simp only [TimerQueue.freed, erased, Function.update_self] at ht
    cases ht
  | cancelOther _ _ hactive =>
    obtain ⟨_, _, hheap, _⟩ := s.queue.canceling_eq timerId
    dsimp only at ht
    rw [hheap] at ht
    obtain ⟨hnotQueued, hnotTodo⟩ := hsettled t ht hsequence
    have houtside : timerId.timer ∈ addrs s.batch ++ s.queued := by
      by_contra hnotMem
      exact hactive ((hinv.owns.activeTimers _ _).mpr ⟨t, ht, hsequence, hnotMem⟩)
    have hbatch : timerId.timer ∈ addrs s.batch := (List.mem_append.mp houtside).resolve_right hnotQueued
    cases hf : s.frame with
    | none =>
      rw [batch_of_none hf] at hbatch
      cases hbatch
    | some f =>
      rw [batch_of_some hf] at hbatch
      refine ⟨f, rfl, hbatch, hnotTodo f hf, ?_⟩
      rw [canceling, if_pos (hcalling f hf)]
      exact SortedSet.mem_insert.mpr (.inl rfl)

theorem Gone.step (h : s.Gone sequence) (hsteps : Steps s a s') : s'.Gone sequence := by
  have hheirs := hsteps.heirs
  have hle := h.numCreated
  refine ⟨Nat.le_trans hle hheirs.numCreated, ?_⟩
  intro timer t' ht' hsequence
  have hlived : ∃ t, s.queue.heap timer = some t ∧ t.sequence = sequence := by
    cases hheirs.heap timer t' ht' with
    | inl hold =>
      obtain ⟨t, ht, heq⟩ := hold
      exact ⟨t, ht, heq ▸ hsequence⟩
    | inr hnew => omega
  obtain ⟨t, ht, heq⟩ := hlived
  obtain ⟨f, hf, hbatch, hdone, hmarked⟩ := h.marked timer t ht heq
  cases hsteps with
  | tick | createTimer | cancelPending => exact ⟨f, hf, hbatch, hdone, hmarked⟩
  | addTimer b cb when_ interval t'' queue _ _ _ hsame =>
    refine ⟨f, hf, hbatch, hdone, ?_⟩
    dsimp only
    rw [hsame.cancelingTimers]
    exact hmarked
  | cancelOther timerId =>
    refine ⟨f, hf, hbatch, hdone, ?_⟩
    unfold canceling
    split
    . exact SortedSet.mem_insert.mpr (.inr hmarked)
    . exact hmarked
  | addTimerInLoop | report | handleRead => simp_all
  | run f' when_ b t'' todo hf' _ htodo _ =>
    rw [hf, Option.some.injEq] at hf'
    subst hf'
    rw [htodo] at hdone
    exact ⟨_, rfl, hbatch, List.not_mem_of_not_mem_cons hdone, hmarked⟩
  | return_ f' hf' _ =>
    rw [hf, Option.some.injEq] at hf'
    subst hf'
    exact ⟨_, rfl, hbatch, hdone, hmarked⟩
  | reset f' queue hf' _ _ hrenewed =>
    rw [hf, Option.some.injEq] at hf'
    subst hf'
    have hrenew := hrenewed.batch timer hbatch
    simp only [ht, Option.bind_some, renewed, heq, hmarked, not_true_eq_false, decide_false,
      Bool.and_false, Bool.false_eq_true, if_false] at hrenew
    rw [hrenew] at ht'
    cases ht'

theorem Gone.runsOf_step (h : s.Gone sequence) (hsteps : Steps s a s')
    : s'.runsOf sequence = s.runsOf sequence := by
  cases hsteps with
  | run f when_ timer t todo hf _ htodo ht =>
    apply runsOf_append_of_ne rfl
    intro hsequence
    obtain ⟨f', hf', _, hdone, _⟩ := h.marked timer t ht hsequence
    rw [hf, Option.some.injEq] at hf'
    subst hf'
    rw [htodo] at hdone
    exact hdone List.mem_cons_self
  | _ => rfl

theorem Gone.notArmed (h : s.Gone sequence) (hinv : s.Inv) {when_ : Timestamp} {timer : Addr} {t : Timer φ}
    (hmem : toLex (when_, timer) ∈ s.queue.timers) (ht : s.queue.heap timer = some t)
    : t.sequence ≠ sequence := by
  intro hsequence
  obtain ⟨f, hf, hbatch, _, _⟩ := h.marked timer t ht hsequence
  obtain ⟨_, _, _, hnotMem⟩ := (hinv.owns.timers when_ timer).mp hmem
  rw [batch_of_some hf] at hnotMem
  exact hnotMem (List.mem_append_left _ hbatch)

theorem Gone.staysCancelled {as : List (Label φ)} (hs : (anyTime φ).Reachable s) (h : s.Gone timerId.sequence)
    (hrun : (anyTime φ).run s as = some s') : s.StaysCancelled s' timerId := by
  have hboth : s'.Gone timerId.sequence ∧ s'.runsOf timerId.sequence = s.runsOf timerId.sequence := by
    refine hs.run_invariant
      (fun s' => s'.Gone timerId.sequence ∧ s'.runsOf timerId.sequence = s.runsOf timerId.sequence)
      ⟨h, rfl⟩ ?_ hrun
    rintro s₁ a s₂ hs₁ _ ⟨hgone, hruns⟩ hstep
    have hsteps := (inv_anyTime hs₁).steps_anyTime hstep
    exact ⟨hgone.step hsteps, (hgone.runsOf_step hsteps).trans hruns⟩
  refine ⟨hboth.2, ?_⟩
  intro when_ timer t hmem ht
  exact hboth.1.notArmed (inv_anyTime (hs.run hrun)) hmem ht

/-
A timer that is not settled is run in some continuation.
-/

theorem Steps.length_runsOf_le (hsteps : Steps s a s') (sequence : Nat)
    : (s.runsOf sequence).length ≤ (s'.runsOf sequence).length := by
  cases hsteps with
  | run => simp [runsOf, List.filter_append]
  | _ => exact Nat.le_refl _

theorem Inv.exists_steps (h : s.Inv) (hoffered : s.offered a)
    : ∃ s', (anyTime φ).step s a = some s' ∧ Steps s a s' ∧ s'.Inv := by
  obtain ⟨s', hstep⟩ := h.exists_step hoffered
  have hsteps := h.steps_anyTime hstep
  exact ⟨s', hstep, hsteps, h.of_steps hsteps⟩

-- the next callback of the batch, from its start to its end
theorem Inv.exists_callback {f : HandleRead} {when_ : Timestamp} {timer : Addr} {todo : List Entry} (h : s.Inv)
    (hf : s.frame = some f) (hrunning : f.running = false) (htodo : f.todo = toLex (when_, timer) :: todo)
    : ∃ s' t, (anyTime φ).run s [.run, .return_] = some s' ∧ s'.Inv ∧ s'.queue = s.queue
        ∧ s'.queued = s.queued ∧ s'.frame = some { f with todo := todo, running := false }
        ∧ s.queue.heap timer = some t
        ∧ s'.ran = s.ran ++ [⟨s.ended.length, f.start, t.sequence, t.expiration⟩] := by
  have hne : f.todo ≠ [] := by
    simp [htodo]
  obtain ⟨s₁, hstep₁, hsteps₁, hinv₁⟩ := h.exists_steps (a := .run) ⟨f, hf, hrunning, hne⟩
  cases hsteps₁ with
  | run f' when_' timer' t todo' hf' _ htodo' ht =>
    rw [hf, Option.some.injEq] at hf'
    subst hf'
    rw [htodo, List.cons.injEq, EmbeddingLike.apply_eq_iff_eq, Prod.mk.injEq] at htodo'
    obtain ⟨⟨rfl, rfl⟩, rfl⟩ := htodo'
    obtain ⟨s₂, hstep₂, hsteps₂, hinv₂⟩ := hinv₁.exists_steps (a := .return_) rfl
    cases hsteps₂ with
    | return_ f₂ hf₂ =>
      rw [Option.some.injEq] at hf₂
      subst hf₂
      exact ⟨_, t, LTS.run_cons hstep₁ (LTS.run_cons hstep₂ rfl), hinv₂, rfl, rfl, rfl, ht, rfl⟩

theorem length_runsOf_append {r : Run} (hran : s'.ran = s.ran ++ [r])
    : (s.runsOf sequence).length ≤ (s'.runsOf sequence).length
        ∧ (r.sequence = sequence → (s.runsOf sequence).length < (s'.runsOf sequence).length) := by
  refine ⟨?_, ?_⟩
  . simp [runsOf, hran, List.filter_append]
  . intro heq
    simp [runsOf_append_of_eq hran heq]

/--
The loop over the batch comes to each of its timers.
-/
theorem Inv.exists_turn {f : HandleRead} {before behind : List Entry} {when_ : Timestamp} {timer : Addr}
    {t : Timer φ} (h : s.Inv) (hf : s.frame = some f) (hrunning : f.running = false)
    (htodo : f.todo = before ++ toLex (when_, timer) :: behind) (ht : s.queue.heap timer = some t)
    : ∃ as s', (anyTime φ).run s as = some s'
        ∧ (s.runsOf t.sequence).length < (s'.runsOf t.sequence).length := by
  induction before generalizing s f with
  | nil =>
    obtain ⟨s', t', hrun, _, _, _, _, ht', hran⟩ := h.exists_callback hf hrunning htodo
    rw [ht, Option.some.injEq] at ht'
    subst ht'
    exact ⟨_, s', hrun, (length_runsOf_append hran).2 rfl⟩
  | cons it before ih =>
    obtain ⟨s₁, _, hrun₁, hinv₁, hqueue, _, hf₁, _, hran⟩ :=
      h.exists_callback hf hrunning (htodo : f.todo = toLex ((ofLex it).1, (ofLex it).2) :: _)
    have ht₁ : s₁.queue.heap timer = some t := by
      rw [hqueue]
      exact ht
    obtain ⟨as, s', hrun, hlt⟩ := ih hinv₁ hf₁ rfl rfl ht₁
    refine ⟨_ ++ as, s', (LTS.run_append hrun₁).trans hrun, ?_⟩
    exact Nat.lt_of_le_of_lt (length_runsOf_append hran).1 hlt

theorem Inv.queued_live {timer : Addr} {t : Timer φ} (h : s.Inv) (hsteps : Steps s a s') (hmem : timer ∈ s.queued)
    (ht : s.queue.heap timer = some t) : s'.queue.heap timer = some t :=
  hsteps.outside_kept (List.mem_append_right _ hmem) ht fun _ hbatch => h.not_queued hbatch hmem

-- the `handleRead` in progress comes to its end, and the functors still wait
theorem Inv.exists_finished (sequence : Nat) {f : HandleRead} {timer : Addr} {t : Timer φ} (h : s.Inv)
    (hf : s.frame = some f) (hrunning : f.running = false) (hmem : timer ∈ s.queued) (ht : s.queue.heap timer = some t)
    : ∃ as s', (anyTime φ).run s as = some s' ∧ s'.Inv ∧ s'.frame = none ∧ s'.queued = s.queued
        ∧ s'.queue.heap timer = some t
        ∧ (s.runsOf sequence).length ≤ (s'.runsOf sequence).length := by
  generalize htodo : f.todo = todo
  induction todo generalizing s f with
  | nil =>
    have hoffered : s.offered .reset := by
      simp [offered, enabledAnyTime, enabled, hf, hrunning, htodo]
    obtain ⟨s', hstep, hsteps, hinv⟩ := h.exists_steps hoffered
    have hlive := h.queued_live hsteps hmem ht
    have hlength := hsteps.length_runsOf_le sequence
    cases hsteps with
    | reset => exact ⟨[.reset], _, LTS.run_cons hstep rfl, hinv, rfl, rfl, hlive, hlength⟩
  | cons it todo ih =>
    obtain ⟨s₁, _, hrun₁, hinv₁, hqueue, hqueued, hf₁, _, hran⟩ :=
      h.exists_callback hf hrunning (htodo : f.todo = toLex ((ofLex it).1, (ofLex it).2) :: _)
    rw [← hqueue] at ht
    rw [← hqueued] at hmem
    obtain ⟨as, s', hrun, hinv, hf', hqueued', hlive, hle⟩ := ih hinv₁ hf₁ rfl hmem ht rfl
    refine ⟨_ ++ as, s', (LTS.run_append hrun₁).trans hrun, hinv, hf', hqueued'.trans hqueued, hlive, ?_⟩
    exact Nat.le_trans (length_runsOf_append hran).1 hle

-- the loop executes the functors up to the one that inserts the timer
theorem Inv.exists_inserted {before behind : List Addr} {timer : Addr} {t : Timer φ} (h : s.Inv)
    (hf : s.frame = none) (hqueued : s.queued = before ++ timer :: behind) (ht : s.queue.heap timer = some t)
    : ∃ as s', (anyTime φ).run s as = some s' ∧ s'.Inv ∧ s'.frame = none
        ∧ s'.queue.heap timer = some t ∧ toLex (t.expiration, timer) ∈ s'.queue.timers
        ∧ (s.runsOf sequence).length ≤ (s'.runsOf sequence).length := by
  have hmem : timer ∈ s.queued := by
    simp [hqueued]
  have hoffered : s.offered .addTimerInLoop := ⟨hf, List.ne_nil_of_mem hmem⟩
  obtain ⟨s₁, hstep, hsteps, hinv₁⟩ := h.exists_steps hoffered
  have hlive := h.queued_live hsteps hmem ht
  induction before generalizing s s₁ with
  | nil =>
    cases hsteps with
    | addTimerInLoop b t' queued queue hframe hqueued' ht' hsame =>
      rw [hqueued, List.nil_append, List.cons.injEq] at hqueued'
      obtain ⟨rfl, rfl⟩ := hqueued'
      rw [ht, Option.some.injEq] at ht'
      subst ht'
      refine ⟨[.addTimerInLoop], _, LTS.run_cons hstep rfl, hinv₁, hf, hlive, ?_, Nat.le_refl _⟩
      dsimp only
      rw [hsame.timers]
      exact SortedSet.mem_insert.mpr (.inl rfl)
  | cons b before ih =>
    cases hsteps with
    | addTimerInLoop b' t' queued queue hframe hqueued' ht' hsame =>
      rw [hqueued, List.cons_append, List.cons.injEq] at hqueued'
      obtain ⟨rfl, rfl⟩ := hqueued'
      have hmem₁ : timer ∈ before ++ timer :: behind := by
        simp
      have hoffered₁ : offered { s with queue := queue, queued := before ++ timer :: behind } .addTimerInLoop :=
        ⟨hf, List.ne_nil_of_mem hmem₁⟩
      obtain ⟨s₂, hstep₂, hsteps₂, hinv₂⟩ := hinv₁.exists_steps hoffered₁
      obtain ⟨as, s', hrun, hrest⟩ := ih hinv₁ hf rfl hlive hmem₁ hoffered₁ s₂ hstep₂ hsteps₂ hinv₂
        (hinv₁.queued_live hsteps₂ hmem₁ hlive)
      exact ⟨.addTimerInLoop :: as, s', LTS.run_cons hstep hrun, hrest⟩

-- with time, a timer in the sets comes to be run
theorem Inv.exists_due {timer : Addr} {t : Timer φ} (h : s.Inv) (hf : s.frame = none)
    (ht : s.queue.heap timer = some t) (hmem : toLex (t.expiration, timer) ∈ s.queue.timers)
    : ∃ as s', (anyTime φ).run s as = some s'
        ∧ (s.runsOf t.sequence).length < (s'.runsOf t.sequence).length := by
  have hreach : ∀ when_ clock : Int, ∃ n : Nat, when_ ≤ (clock + n) / 1000000 := by
    intro when_ clock
    refine ⟨(when_ * 1000000 - clock).toNat, ?_⟩
    rw [Int.le_ediv_iff_mul_le (by decide)]
    omega
  obtain ⟨n, hn⟩ := hreach t.expiration s.clock
  obtain ⟨s₁, hstep₁, hsteps₁, hinv₁⟩ := h.exists_steps (a := .tick n) rfl
  cases hsteps₁ with
  | tick =>
    have hoffered : offered { s with clock := s.clock + n } .handleRead := by
      simp [offered, enabledAnyTime, hf]
    obtain ⟨s₂, hstep₂, hsteps₂, hinv₂⟩ := hinv₁.exists_steps hoffered
    cases hsteps₂ with
    | handleRead f queue _ _ hnow htodo hrunning _ _ hexpiry _ =>
      have hdue : toLex (t.expiration, timer) ∈ f.todo := by
        rw [htodo, hexpiry.mem, hnow]
        exact ⟨hmem, hn⟩
      obtain ⟨before, behind, hsplit⟩ := List.append_of_mem hdue
      have hlive : queue.heap timer = some t := by
        rw [hexpiry.heap]
        exact ht
      obtain ⟨as, s', hrun, hlt⟩ := hinv₂.exists_turn rfl hrunning hsplit hlive
      exact ⟨_ :: _ :: as, s', LTS.run_cons hstep₁ (LTS.run_cons hstep₂ hrun), hlt⟩

theorem Inv.exists_due_of_queued {timer : Addr} {t : Timer φ} (h : s.Inv) (hf : s.frame = none)
    (ht : s.queue.heap timer = some t) (hmem : timer ∈ s.queued)
    : ∃ as s', (anyTime φ).run s as = some s'
        ∧ (s.runsOf t.sequence).length < (s'.runsOf t.sequence).length := by
  obtain ⟨before, behind, hsplit⟩ := List.append_of_mem hmem
  obtain ⟨as, s₁, hrun, hinv₁, hf₁, ht₁, hmem₁, hle⟩ := h.exists_inserted hf hsplit ht
  obtain ⟨bs, s', hrun', hlt⟩ := hinv₁.exists_due hf₁ ht₁ hmem₁
  exact ⟨as ++ bs, s', (LTS.run_append hrun).trans hrun', Nat.lt_of_le_of_lt hle hlt⟩

theorem Inv.exists_run {timer : Addr} {t : Timer φ} (h : s.Inv) (hcode : s.inUserCode = true)
    (ht : s.queue.heap timer = some t)
    (hahead : timer ∈ s.queued ∨ ∃ f, s.frame = some f ∧ timer ∈ addrs f.todo)
    : ∃ as s', (anyTime φ).run s as = some s'
        ∧ (s.runsOf t.sequence).length < (s'.runsOf t.sequence).length := by
  cases hf : s.frame with
  | none =>
    simp only [hf, reduceCtorEq, false_and, exists_false, or_false] at hahead
    exact h.exists_due_of_queued hf ht hahead
  | some f =>
    simp only [inUserCode, hf, Option.all_some] at hcode
    have hoffered : s.offered .return_ := by
      simp [offered, enabledAnyTime, enabled, hf, hcode]
    obtain ⟨s₁, hstep, hsteps, hinv₁⟩ := h.exists_steps hoffered
    cases hsteps with
    | return_ f' hf' =>
      rw [hf, Option.some.injEq] at hf'
      subst hf'
      cases hahead with
      | inl hqueued =>
        obtain ⟨as, s₂, hrun, hinv₂, hf₂, hqueued₂, ht₂, hle⟩ :=
          hinv₁.exists_finished t.sequence rfl rfl hqueued ht
        obtain ⟨bs, s', hrun', hlt⟩ := hinv₂.exists_due_of_queued hf₂ ht₂ (hqueued₂ ▸ hqueued)
        exact ⟨_ :: (as ++ bs), s', LTS.run_cons hstep ((LTS.run_append hrun).trans hrun'),
          Nat.lt_of_le_of_lt hle hlt⟩
      | inr htodo =>
        obtain ⟨f', hf', hmem⟩ := htodo
        rw [hf, Option.some.injEq] at hf'
        subst hf'
        obtain ⟨when_, hit⟩ := mem_addrs.mp hmem
        obtain ⟨before, behind, hsplit⟩ := List.append_of_mem hit
        obtain ⟨as, s', hrun, hlt⟩ := hinv₁.exists_turn rfl rfl hsplit ht
        exact ⟨_ :: as, s', LTS.run_cons hstep hrun, hlt⟩

/--
For every id that `addTimer` has returned and every moment of its cancellation: whatever happens afterwards,
the timer stays cancelled, exactly when it was settled.
-/
theorem cancelled_iff {s₀ s₁ : TimerLoop φ} {as : List (Label φ)} (hs₀ : (anyTime φ).Reachable s₀)
    (hadd : (anyTime φ).step s₀ a = some s₁) (hreturned : s₀.returned a = some timerId)
    (hrun : (anyTime φ).run s₁ as = some s) (hcancel : (anyTime φ).step s (.cancel timerId) = some s')
    : (∀ bs s'', (anyTime φ).run s' bs = some s'' → s'.StaysCancelled s'' timerId) ↔ s.Settled timerId := by
  have hs₁ : (anyTime φ).Reachable s₁ := .step hs₀ trivial hadd
  have hs : (anyTime φ).Reachable s := hs₁.run hrun
  have hs' : (anyTime φ).Reachable s' := .step hs trivial hcancel
  have hinv₀ := inv_anyTime hs₀
  have hinv := inv_anyTime hs
  have hsteps := hinv.steps_anyTime hcancel
  have hissued : s.Issued timerId := by
    refine hs₁.run_invariant (Issued · timerId) ?_ ?_ hrun
    . exact hinv₀.issued_returned (hinv₀.steps_anyTime hadd) hreturned
    . intro s a s' hs _ hissued hstep
      exact hissued.step ((inv_anyTime hs).steps_anyTime hstep)
  constructor
  . intro hstays t ht hsequence
    by_contra hunsettled
    have hahead : timerId.timer ∈ s.queued ∨ ∃ f, s.frame = some f ∧ timerId.timer ∈ addrs f.todo := by
      by_contra hnone
      rw [not_or, not_exists] at hnone
      exact hunsettled ⟨hnone.1, fun f hf hmem => hnone.2 f ⟨hf, hmem⟩⟩
    have houtside : timerId.timer ∈ addrs s.batch ++ s.queued := by
      cases hahead with
      | inl hqueued => exact List.mem_append_right _ hqueued
      | inr htodo =>
        obtain ⟨f, hf, hmem⟩ := htodo
        rw [batch_of_some hf]
        exact List.mem_append_left _ (mem_addrs_of_suffix (hinv.todo f hf) hmem)
    cases hsteps with
    | cancelPending timer t' _ _ hnotMem => exact hnotMem houtside
    | cancelOther _ hcode _ =>
      have ht' : (s.queue.canceling timerId).heap timerId.timer = some t := by
        rw [(s.queue.canceling_eq timerId).2.2.1]
        exact ht
      obtain ⟨bs, s'', hrun', hlt⟩ := (hinv.of_steps (hinv.steps_anyTime hcancel)).exists_run hcode ht' hahead
      have hsame := (hstays bs s'' hrun').notRun
      rw [← hsequence] at hsame
      rw [hsame] at hlt
      exact Nat.lt_irrefl _ hlt
  . intro hsettled bs s'' hrun'
    exact (Gone.of_cancel hinv (calling_anyTime hs) hissued hsettled hsteps).staysCancelled hs' hrun'

-- the callback of a repeating timer is running, and cancels it
def addedRepeating : TimerLoop Unit :=
  ((anyTime Unit).step (new 0) (.addTimer 1 () 1 5)).get rfl

def runningRepeating : TimerLoop Unit :=
  ((anyTime Unit).run addedRepeating [.tick 1000000, .handleRead, .run]).get rfl

def canceledItself : TimerLoop Unit :=
  ((anyTime Unit).step runningRepeating (.cancel ⟨1, 1⟩)).get rfl

theorem cancelled_iff_canceledItself
    : (anyTime Unit).step runningRepeating (.cancel ⟨1, 1⟩) = some canceledItself
        ∧ ∀ bs s, (anyTime Unit).run canceledItself bs = some s → canceledItself.StaysCancelled s ⟨1, 1⟩ := by
  have hadd : (anyTime Unit).step (new 0) (.addTimer 1 () 1 5) = some addedRepeating :=
    (Option.some_get _).symm
  have hrun : (anyTime Unit).run addedRepeating [.tick 1000000, .handleRead, .run] = some runningRepeating :=
    (Option.some_get _).symm
  have hcancel : (anyTime Unit).step runningRepeating (.cancel ⟨1, 1⟩) = some canceledItself :=
    (Option.some_get _).symm
  refine ⟨hcancel, (cancelled_iff (.init ⟨0, rfl⟩) hadd rfl hrun hcancel).mpr ?_⟩
  intro t _ _
  refine ⟨List.not_mem_nil, ?_⟩
  rintro f ⟨rfl⟩
  exact List.not_mem_nil

/--
The first callback of a batch of two cancels the second timer, which is run all the same; and a timer that is
cancelled while another thread's functor still holds it is inserted afterwards, and run.
-/
theorem cancelled_runs
    : (∃ s s' s'', (system Unit).run (new 0)
            [.addTimer 1 () 1 0, .addTimer 2 () 1 0, .tick 1000000, .report, .handleRead, .run] = some s
          ∧ (system Unit).step s (.cancel ⟨2, 2⟩) = some s'
          ∧ (system Unit).run s' [.return_, .run] = some s'' ∧ ¬s'.StaysCancelled s'' ⟨2, 2⟩)
        ∧ ∃ s s' s'', (system Unit).step (new 0) (.createTimer 1 () 1 0) = some s
          ∧ (system Unit).step s (.cancel ⟨1, 1⟩) = some s'
          ∧ (system Unit).run s' [.addTimerInLoop, .tick 1000000, .report, .handleRead, .run] = some s''
          ∧ ¬s'.StaysCancelled s'' ⟨1, 1⟩ := by
  refine ⟨⟨_, _, _, rfl, rfl, rfl, ?_⟩, ⟨_, _, _, rfl, rfl, rfl, ?_⟩⟩
  . intro hstays
    exact absurd hstays.notRun (by decide)
  . intro hstays
    exact absurd hstays.notRun (by decide)

end TimerLoop

end MyMuduo
