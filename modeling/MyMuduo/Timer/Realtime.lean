import MyMuduo.Timer.Invariant

/-!
This module contains when the timers fire in real time: `Timestamp::now` counts seconds, while
`addTime` and the timerfd count microseconds.
-/

namespace MyMuduo

theorem addTime_microseconds (timestamp : Timestamp) (d : Nat)
    : addTime timestamp ((d : Rat) / 1000000) = timestamp + d := by
  have hk : ((Timestamp.kMicroSecondsPerSecond : Int) : Rat) = 1000000 := by
    simp [Timestamp.kMicroSecondsPerSecond]
  have hdelta : (d : Rat) / 1000000 * ((Timestamp.kMicroSecondsPerSecond : Int) : Rat) = (d : Int) := by
    rw [hk]
    exact Rat.div_mul_cancel (by decide)
  simp only [addTime]
  rw [hdelta]
  simp

namespace TimerLoop

open TimerQueue

universe u

variable {φ : Type u} {s s' : TimerLoop φ} {a : Label φ}

-- the timer is in the sets, and no `handleRead` from `deadline` on has begun
structure Waiting (s : TimerLoop φ) (timer : Addr) (sequence : Nat) (when_ : Timestamp) (deadline : Int)
    : Prop where
  live : ∃ t, s.queue.heap timer = some t ∧ t.sequence = sequence ∧ t.expiration = when_
  notMem : timer ∉ addrs s.batch ++ s.queued
  ended : ∀ start ∈ s.ended, start < deadline
  frame : ∀ f, s.frame = some f → f.start < deadline

-- the timer is still to be run in the batch
structure Batched (s : TimerLoop φ) (timer : Addr) (sequence : Nat) (deadline : Int) : Prop where
  live : ∃ t, s.queue.heap timer = some t ∧ t.sequence = sequence
  mem : ∃ f, s.frame = some f ∧ timer ∈ addrs f.todo
  ended : ∀ start ∈ s.ended, start < deadline

def HasRun (s : TimerLoop φ) (sequence : Nat) : Prop :=
  ∃ r ∈ s.ran, r.sequence = sequence

def Stage (s : TimerLoop φ) (timer : Addr) (sequence : Nat) (when_ : Timestamp) (deadline : Int) : Prop :=
  s.Waiting timer sequence when_ deadline ∨ s.Batched timer sequence deadline ∨ s.HasRun sequence

variable {timer : Addr} {sequence : Nat} {when_ : Timestamp} {deadline : Int}

theorem HasRun.step (h : s.HasRun sequence) (hsteps : Steps s a s') : s'.HasRun sequence := by
  obtain ⟨r, hr, hsequence⟩ := h
  cases hsteps with
  | run => exact ⟨r, List.mem_append_left _ hr, hsequence⟩
  | _ => exact ⟨r, hr, hsequence⟩

theorem Batched.step (hinv : s.Inv) (h : s.Batched timer sequence deadline) (hsteps : Steps s a s')
    : s'.Stage timer sequence when_ deadline := by
  obtain ⟨t, ht, hsequence⟩ := h.live
  obtain ⟨f, hf, hmem⟩ := h.mem
  have hbatch : timer ∈ addrs s.batch := by
    rw [batch_of_some hf]
    exact mem_addrs_of_suffix (hinv.todo f hf) hmem
  have hlive : a ≠ .reset → s'.queue.heap timer = some t := by
    intro hreset
    apply hsteps.heap_kept ht
    . intro hnotMem
      exact absurd (List.mem_append_left _ hbatch) hnotMem
    . intro heq
      exact absurd heq hreset
  cases hsteps with
  | run f' when_' b t' todo hf' _ htodo ht' =>
    rw [hf, Option.some.injEq] at hf'
    subst hf'
    rw [htodo] at hmem
    cases List.mem_cons.mp hmem with
    | inl heq =>
      have ht' : s.queue.heap timer = some t' := heq ▸ ht'
      rw [ht, Option.some.injEq] at ht'
      exact .inr (.inr ⟨_, List.mem_append_right _ (List.mem_singleton.mpr rfl), ht' ▸ hsequence⟩)
    | inr hmem => exact .inr (.inl ⟨⟨t, hlive (by simp), hsequence⟩, ⟨_, rfl, hmem⟩, h.ended⟩)
  | return_ f' hf' _ =>
    rw [hf, Option.some.injEq] at hf'
    subst hf'
    exact .inr (.inl ⟨⟨t, hlive (by simp), hsequence⟩, ⟨_, rfl, hmem⟩, h.ended⟩)
  | reset f' queue hf' _ htodo =>
    rw [hf, Option.some.injEq] at hf'
    subst hf'
    rw [htodo] at hmem
    cases hmem
  | addTimerInLoop | report | handleRead => simp_all
  | tick | addTimer | createTimer | cancelPending | cancelOther =>
    exact .inr (.inl ⟨⟨t, hlive (by simp), hsequence⟩, ⟨f, hf, hmem⟩, h.ended⟩)

theorem Waiting.step (hinv : s.Inv) (h : s.Waiting timer sequence when_ deadline)
    (hdue : ∀ clock, deadline ≤ clock → when_ ≤ Timestamp.now clock) (hsteps : Steps s a s')
    (hcancel : a ≠ .cancel ⟨timer, sequence⟩) : s'.Stage timer sequence when_ deadline := by
  obtain ⟨t, ht, rfl, rfl⟩ := h.live
  have hnotBatch : timer ∉ addrs s.batch := fun hmem => h.notMem (List.mem_append_left _ hmem)
  have hnotQueued : timer ∉ s.queued := fun hmem => h.notMem (List.mem_append_right _ hmem)
  have hlive : s'.queue.heap timer = some t := hsteps.heap_kept ht (fun _ => hcancel) (fun _ => hnotBatch)
  cases hsteps with
  | tick | report | addTimer | cancelPending | cancelOther =>
    exact .inl ⟨⟨t, hlive, rfl, rfl⟩, h.notMem, h.ended, h.frame⟩
  | createTimer b cb when_' interval t' halloc _ =>
    refine .inl ⟨⟨t, hlive, rfl, rfl⟩, ?_, h.ended, h.frame⟩
    have hne : timer ≠ b := by
      rintro rfl
      simp [(allocates_iff.mp halloc).1] at ht
    change timer ∉ addrs s.batch ++ (s.queued ++ [b])
    simp [hnotBatch, hnotQueued, hne]
  | addTimerInLoop b t' queued queue hframe hqueued _ _ =>
    refine .inl ⟨⟨t, hlive, rfl, rfl⟩, ?_, h.ended, h.frame⟩
    rw [hqueued] at hnotQueued
    change timer ∉ addrs s.batch ++ queued
    simp [hnotBatch, List.not_mem_of_not_mem_cons hnotQueued]
  | handleRead f queue hframe hstart hnow htodo hrunning _ _ hexpiry hmoved =>
    by_cases hmem : timer ∈ addrs f.expired
    . exact .inr (.inl ⟨⟨t, hlive, rfl⟩, ⟨f, rfl, htodo ▸ hmem⟩, h.ended⟩)
    . refine .inl ⟨⟨t, hlive, rfl, rfl⟩, ?_, h.ended, ?_⟩
      . simpa [batch] using ⟨hmem, hnotQueued⟩
      . rintro _ ⟨rfl⟩
        by_contra hlate
        have hlate : deadline ≤ s.clock := by
          rw [hstart] at hlate
          omega
        apply hmem
        rw [mem_addrs]
        refine ⟨t.expiration, (hexpiry.mem _ _).mpr ⟨?_, ?_⟩⟩
        . exact (hinv.owns.timers _ _).mpr ⟨t, ht, rfl, h.notMem⟩
        . rw [hnow]
          exact hdue _ hlate
  | run f when_' b t' todo hf _ _ _ =>
    rw [batch_of_some hf] at hnotBatch
    refine .inl ⟨⟨t, hlive, rfl, rfl⟩, ?_, h.ended, ?_⟩
    . simpa [batch] using ⟨hnotBatch, hnotQueued⟩
    . rintro _ ⟨rfl⟩
      exact h.frame f hf
  | return_ f hf _ =>
    rw [batch_of_some hf] at hnotBatch
    refine .inl ⟨⟨t, hlive, rfl, rfl⟩, ?_, h.ended, ?_⟩
    . simpa [batch] using ⟨hnotBatch, hnotQueued⟩
    . rintro _ ⟨rfl⟩
      exact h.frame f hf
  | reset f queue hf _ _ _ _ =>
    refine .inl ⟨⟨t, hlive, rfl, rfl⟩, ?_, ?_, ?_⟩
    . simpa [batch, addrs] using hnotQueued
    . intro start hmem
      rw [List.mem_append, List.mem_singleton] at hmem
      cases hmem with
      | inl hmem => exact h.ended start hmem
      | inr heq => exact heq ▸ h.frame f hf
    . intro f' hf'
      cases hf'

theorem Stage.step (hinv : s.Inv) (h : s.Stage timer sequence when_ deadline)
    (hdue : ∀ clock, deadline ≤ clock → when_ ≤ Timestamp.now clock) (hsteps : Steps s a s')
    (hcancel : a ≠ .cancel ⟨timer, sequence⟩) : s'.Stage timer sequence when_ deadline := by
  obtain hwaiting | hbatched | hran := h
  . exact hwaiting.step hinv hdue hsteps hcancel
  . exact hbatched.step hinv hsteps
  . exact .inr (.inr (hran.step hsteps))

theorem Stage.run {as : List (Label φ)} (hs : (system φ).Reachable s)
    (h : s.Stage timer sequence when_ deadline)
    (hdue : ∀ clock, deadline ≤ clock → when_ ≤ Timestamp.now clock)
    (hcancel : .cancel ⟨timer, sequence⟩ ∉ as) (hrun : (system φ).run s as = some s')
    : s'.Stage timer sequence when_ deadline := by
  refine hs.run_invariant (Stage · timer sequence when_ deadline) h ?_ hrun
  intro s a s' hs ha hstage hstep
  have hinv := inv_reachable hs
  apply hstage.step hinv hdue (hinv.steps hstep)
  rintro rfl
  exact hcancel ha

theorem Stage.hasRun (h : s.Stage timer sequence when_ deadline) {start : Int} (hended : start ∈ s.ended)
    (hlate : deadline ≤ start) : s.HasRun sequence := by
  obtain hwaiting | hbatched | hran := h
  . exact absurd (hwaiting.ended start hended) (not_lt.mpr hlate)
  . exact absurd (hbatched.ended start hended) (not_lt.mpr hlate)
  . exact hran

/-
No timer runs in a `handleRead` that began before it was added.
-/

structure Since (s : TimerLoop φ) (sequence : Nat) (t0 : Int) : Prop where
  clock : t0 ≤ s.clock
  numCreated : sequence ≤ s.queue.numCreated
  frame : ∀ f, s.frame = some f → ∀ timer ∈ addrs f.todo, ∀ t, s.queue.heap timer = some t →
    t.sequence = sequence → t0 ≤ f.start
  ran : ∀ r ∈ s.ran, r.sequence = sequence → t0 ≤ r.start

variable {t0 : Int}

theorem Steps.clock_le (hsteps : Steps s a s') : s.clock ≤ s'.clock := by
  cases hsteps with
  | tick microseconds =>
    dsimp only
    omega
  | _ => exact Int.le_refl _

-- where the rest of a batch comes from
theorem Steps.frame_cases (hsteps : Steps s a s') {f' : HandleRead} (hf' : s'.frame = some f')
    : (∃ f, s.frame = some f ∧ f'.start = f.start ∧ f'.todo <:+ f.todo) ∨ f'.start = s.clock := by
  cases hsteps with
  | handleRead f queue _ hstart =>
    cases hf'
    exact .inr hstart
  | run f when_ timer t todo hf _ htodo _ =>
    cases hf'
    refine .inl ⟨f, hf, rfl, ?_⟩
    rw [htodo]
    exact List.suffix_cons _ _
  | return_ f hf _ =>
    cases hf'
    exact .inl ⟨f, hf, rfl, List.suffix_rfl⟩
  | reset => cases hf'
  | _ => exact .inl ⟨f', hf', rfl, List.suffix_rfl⟩

theorem Since.step (h : s.Since sequence t0) (hsteps : Steps s a s') : s'.Since sequence t0 := by
  have hheirs := hsteps.heirs
  refine ⟨Int.le_trans h.clock hsteps.clock_le, Nat.le_trans h.numCreated hheirs.numCreated, ?_, ?_⟩
  . intro f' hf' timer hmem t' ht' hsequence
    cases hsteps.frame_cases hf' with
    | inl hold =>
      obtain ⟨f, hf, hstart, hsuffix⟩ := hold
      rw [hstart]
      cases hheirs.heap timer t' ht' with
      | inl hlived =>
        obtain ⟨t, ht, heq⟩ := hlived
        exact h.frame f hf timer (mem_addrs_of_suffix hsuffix hmem) t ht (heq ▸ hsequence)
      | inr hnew =>
        have hle := h.numCreated
        omega
    | inr hstart => exact hstart ▸ h.clock
  . intro r hr hsequence
    cases hsteps.ran_cases hr with
    | inl hold => exact h.ran r hold hsequence
    | inr hrun =>
      obtain ⟨f, timer, t, hf, hmem, ht, hstart, heq⟩ := hrun
      rw [hstart]
      exact h.frame f hf timer hmem t ht (heq ▸ hsequence)

theorem Since.run {as : List (Label φ)} (hs : (system φ).Reachable s) (h : s.Since sequence t0)
    (hrun : (system φ).run s as = some s') : s'.Since sequence t0 := by
  refine hs.run_invariant (Since · sequence t0) h ?_ hrun
  intro s a s' hs _ hsince hstep
  exact hsince.step ((inv_reachable hs).steps hstep)

structure Past (s : TimerLoop φ) : Prop where
  ended : ∀ start ∈ s.ended, start ≤ s.clock
  frame : ∀ f, s.frame = some f → f.start ≤ s.clock

theorem Past.step (h : s.Past) (hsteps : Steps s a s') : s'.Past := by
  have hclock := hsteps.clock_le
  constructor
  . intro start hstart
    cases hsteps with
    | reset f queue hf =>
      rw [List.mem_append, List.mem_singleton] at hstart
      cases hstart with
      | inl hmem => exact h.ended start hmem
      | inr heq => exact heq ▸ h.frame f hf
    | _ => exact Int.le_trans (h.ended start hstart) hclock
  . intro f' hf'
    cases hsteps.frame_cases hf' with
    | inl hold =>
      obtain ⟨f, hf, hstart, _⟩ := hold
      rw [hstart]
      exact Int.le_trans (h.frame f hf) hclock
    | inr hstart => exact hstart ▸ hclock

theorem past_reachable (h : (system φ).Reachable s) : s.Past := by
  have hboth : s.Inv ∧ s.Past := by
    apply h.invariant fun s => s.Inv ∧ s.Past
    . rintro _ ⟨clock, rfl⟩
      refine ⟨.new clock, ?_, ?_⟩
      . intro start hstart
        cases hstart
      . intro f hf
        cases hf
    . rintro s a s' ⟨hinv, hpast⟩ hstep
      exact ⟨hinv.step hstep, hpast.step (hinv.steps hstep)⟩
  exact hboth.2

/-
A timer that `addTimer` adds on the loop thread.
-/

variable {cb : φ} {interval : Rat}

theorem addTimer_added (hinv : s.Inv) (hsteps : Steps s (.addTimer timer cb when_ interval) s')
    : s'.clock = s.clock ∧ s'.batch = s.batch ∧ s'.queued = s.queued ∧ s'.frame = s.frame
        ∧ s'.ended = s.ended ∧ s'.ran = s.ran ∧ s'.queue.numCreated = s.queue.numCreated + 1
        ∧ timer ∉ addrs s.batch ++ s.queued
        ∧ ∃ t, s'.queue.heap timer = some t ∧ t.sequence = s.queue.numCreated + 1
          ∧ t.expiration = when_ := by
  cases hsteps with
  | addTimer _ _ _ _ t queue _ halloc ht hsame =>
    have hnotMem : timer ∉ addrs s.batch ++ s.queued := by
      intro hmem
      obtain ⟨t', ht'⟩ := hinv.owns.live timer hmem
      simp [(allocates_iff.mp halloc).1] at ht'
    refine ⟨rfl, rfl, rfl, rfl, rfl, rfl, hsame.numCreated, hnotMem, t, ?_, ?_, ?_⟩
    . rw [hsame.heap]
      exact Function.update_self ..
    . rw [ht]
      rfl
    . rw [ht]
      rfl

theorem stage_added (hs : (system φ).Reachable s)
    (hstep : (system φ).step s (.addTimer timer cb when_ interval) = some s') (hdeadline : s.clock < deadline)
    : s'.Stage timer (s.queue.numCreated + 1) when_ deadline := by
  have hinv := inv_reachable hs
  have hpast := past_reachable hs
  obtain ⟨_, hbatch, hqueued, hframe, hended, _, _, hnotMem, hlive⟩ := addTimer_added hinv (hinv.steps hstep)
  refine .inl ⟨hlive, ?_, ?_, ?_⟩
  . rw [hbatch, hqueued]
    exact hnotMem
  . rw [hended]
    intro start hstart
    exact Int.lt_of_le_of_lt (hpast.ended start hstart) hdeadline
  . rw [hframe]
    intro f hf
    exact Int.lt_of_le_of_lt (hpast.frame f hf) hdeadline

theorem since_added (hs : (system φ).Reachable s)
    (hstep : (system φ).step s (.addTimer timer cb when_ interval) = some s')
    : s'.Since (s.queue.numCreated + 1) s.clock := by
  have hinv := inv_reachable hs
  obtain ⟨hclock, _, _, hframe, _, hran, hnumCreated, _, _⟩ := addTimer_added hinv (hinv.steps hstep)
  have hsteps := hinv.steps hstep
  refine ⟨Int.le_of_eq hclock.symm, Nat.le_of_eq hnumCreated.symm, ?_, ?_⟩
  . intro f hf b hmem t' ht' hsequence
    rw [hframe] at hf
    have hbatch : b ∈ addrs s.batch := by
      rw [batch_of_some hf]
      exact mem_addrs_of_suffix (hinv.todo f hf) hmem
    obtain ⟨t, ht⟩ := hinv.owns.live b (List.mem_append_left _ hbatch)
    have hkept := hsteps.heap_kept ht (by simp) (by simp)
    rw [ht', Option.some.injEq] at hkept
    have hle := hinv.numbered b t ht
    rw [← hkept] at hle
    omega
  . rw [hran]
    intro r hr hsequence
    have hle := hinv.ranNumbered r hr
    omega

/--
The timer has been run by the end of the first `handleRead` that began one second after it was due or
later, and not by one that began more than one second before.
-/
def FiresOnTime (s : TimerLoop φ) (sequence : Nat) (t0 : Int) (d : Nat) : Prop :=
  (∀ start ∈ s.ended, t0 + d + 1000000 ≤ start → s.HasRun sequence)
    ∧ ∀ r ∈ s.ran, r.sequence = sequence → t0 + d - 1000000 ≤ r.start

-- `Timestamp::now` has reached the expiration one second after it was due
theorem now_reaches_iff (t0 : Int) (d : Nat)
    : Timestamp.now t0 + d ≤ Timestamp.now (t0 + d + 1000000)
        ↔ d ≤ 1 ∨ d = 2 ∧ 999998 ≤ t0 % 1000000 := by
  change t0 / 1000000 + (d : Int) ≤ (t0 + d + 1000000) / 1000000 ↔ _
  omega

theorem now_mono {clock clock' : Int} (h : clock ≤ clock') : Timestamp.now clock ≤ Timestamp.now clock' :=
  Int.ediv_le_ediv (by decide) h

theorem firesOnTime_of_reaches {s₁ s₂ : TimerLoop φ} {d : Nat} {as : List (Label φ)}
    (hs : (system φ).Reachable s)
    (hstep : (system φ).step s (.addTimer timer cb (Timestamp.now s.clock + d) interval) = some s₁)
    (hcancel : .cancel ⟨timer, s.queue.numCreated + 1⟩ ∉ as) (hrun : (system φ).run s₁ as = some s₂)
    (hshort : d ≤ 1000000)
    (hreaches : Timestamp.now s.clock + d ≤ Timestamp.now (s.clock + d + 1000000))
    : s₂.FiresOnTime (s.queue.numCreated + 1) s.clock d := by
  have hs₁ : (system φ).Reachable s₁ := .step hs trivial hstep
  have hdue : ∀ clock, s.clock + d + 1000000 ≤ clock → Timestamp.now s.clock + d ≤ Timestamp.now clock :=
    fun clock hclock => Int.le_trans hreaches (now_mono hclock)
  have hadded : s₁.Stage timer (s.queue.numCreated + 1) (Timestamp.now s.clock + d)
      (s.clock + d + 1000000) := stage_added hs hstep (by omega)
  have hstage := hadded.run hs₁ hdue hcancel hrun
  have hsince := (since_added hs hstep).run hs₁ hrun
  constructor
  . intro start hended hlate
    exact hstage.hasRun hended hlate
  . intro r hr hsequence
    have hle := hsince.ran r hr hsequence
    omega

/-
A timer in an empty queue, and a `handleRead` that begins too late for it and does not run it.
-/

theorem addTimer_new (timer : Addr) (cb : φ) (when_ : Timestamp) (interval : Rat) (clock : Int)
    : ∃ q timerId, (TimerQueue.new : TimerQueue φ).addTimer timer cb when_ interval clock = some (q, timerId)
        ∧ q.timerfd = some (clock + max (when_ - Timestamp.now clock) 100)
        ∧ q.timers.toList = [toLex (when_, timer)] := by
  simp only [TimerQueue.addTimer, addTimerInLoop, TimerQueue.insert, TimerQueue.new, SortedSet.min?,
    SortedSet.empty, Function.update_self, Option.map_some, Option.bind_some, List.head?_nil, if_true,
    Timer.new, (SameTimers.resetTimerfd _ _ _).heap]
  refine ⟨_, _, rfl, ?_, ?_⟩
  . apply timerfd_resetTimerfd
  . rfl

-- a timer in an empty queue, and a `handleRead` that begins too late for it and does not run it
theorem late_run [Inhabited φ] {t0 : Int} {d : Nat}
    (hlate : Timestamp.now (t0 + d + 1000000) < Timestamp.now t0 + d)
    : ∃ s₁ s₂, (system φ).step (.new t0) (.addTimer 1 default (Timestamp.now t0 + d) 0) = some s₁
        ∧ (system φ).run s₁ [.tick (d + 1000000), .report, .handleRead, .reset] = some s₂
        ∧ s₂.ended = [t0 + d + 1000000] ∧ s₂.ran = [] := by
  obtain ⟨q, timerId, hadd, htimerfd, htimers⟩ :=
    addTimer_new (φ := φ) 1 default (Timestamp.now t0 + d) 0 t0
  have hstep : (system φ).step (.new t0) (.addTimer 1 default (Timestamp.now t0 + d) 0) =
      some { (new t0 : TimerLoop φ) with queue := q } := by
    rw [system, LTS.guarded_step]
    refine ⟨rfl, ?_⟩
    simp only [next, TimerLoop.new, hadd, Option.map_some]
  -- the timerfd has expired long ago
  let s : TimerLoop φ := { (new t0 : TimerLoop φ) with queue := q, clock := t0 + d + 1000000, reported := true }
  have hreported : (system φ).run { (new t0 : TimerLoop φ) with queue := q } [.tick (d + 1000000), .report] =
      some s := by
    have hdelay : ∀ x : Int, x + d - x = d := by
      omega
    rw [hdelay] at htimerfd
    simp [LTS.run, system, LTS.guarded, enabled, next, TimerLoop.new, htimerfd, s]
    omega
  have hs : (system φ).Reachable s := LTS.Reachable.run (.step (.init ⟨t0, rfl⟩) trivial hstep) hreported
  have hinv := inv_reachable hs
  obtain ⟨s₁, hread⟩ := hinv.exists_handleRead rfl
  have hinv₁ := hinv.step hread
  cases hinv.steps hread with
  | handleRead f queue _ hstart hnow htodo hrunning _ _ hexpiry _ =>
    have hexpired : f.expired = [] := by
      apply List.eq_nil_iff_forall_not_mem.mpr
      intro it hit
      obtain ⟨hmem, hdue⟩ := (hexpiry.mem (ofLex it).1 (ofLex it).2).mp hit
      have hmem : it ∈ q.timers.toList := hmem
      rw [htimers, List.mem_singleton] at hmem
      subst hmem
      rw [hnow] at hdue
      exact absurd hlate (not_lt.mpr hdue)
    have henabled : TimerLoop.enabled { s with queue := queue, reported := false, frame := some f } .reset = true := by
      simp [enabled, hrunning, htodo, hexpired]
    obtain ⟨s₂, hreset⟩ := hinv₁.exists_reset henabled
    cases hinv₁.steps hreset with
    | reset f' queue' hf' =>
      cases hf'
      refine ⟨_, _, hstep, (LTS.run_append hreported).trans (LTS.run_cons hread (LTS.run_cons hreset rfl)), ?_, rfl⟩
      change [f.start] = [t0 + d + 1000000]
      rw [hstart]

/--
The timer fires on time, whatever else is pending, exactly when the delay is next to nothing: an expiration
lies `d` seconds and not `d` microseconds behind the real time at which the timer was added.
-/
theorem firesOnTime_iff [Inhabited φ] (d : Nat) (t0 : Int)
    : (∀ (s s₁ s₂ : TimerLoop φ) (timer : Addr) (cb : φ) (as : List (Label φ)),
        (system φ).Reachable s → s.clock = t0 →
        (system φ).step s (.addTimer timer cb (addTime (Timestamp.now t0) (d / 1000000)) 0) = some s₁ →
        .cancel ⟨timer, s.queue.numCreated + 1⟩ ∉ as → (system φ).run s₁ as = some s₂ →
        s₂.FiresOnTime (s.queue.numCreated + 1) t0 d)
      ↔ d ≤ 1 ∨ d = 2 ∧ 999998 ≤ t0 % 1000000 := by
  rw [addTime_microseconds, ← now_reaches_iff]
  constructor
  . intro h
    by_contra hnot
    obtain ⟨s₁, s₂, hstep, hrun, hended, hran⟩ := late_run (φ := φ) (not_le.mp hnot)
    have hfires := h (new t0) s₁ s₂ 1 default _ (.init ⟨t0, rfl⟩) rfl hstep (by simp) hrun
    obtain ⟨r, hr, _⟩ := hfires.1 (t0 + d + 1000000) (by simp [hended]) (Int.le_refl _)
    simp [hran] at hr
  . rintro hreaches s s₁ s₂ timer cb as hs rfl hstep hcancel hrun
    have hshort := (now_reaches_iff s.clock d).mp hreaches
    exact firesOnTime_of_reaches hs hstep hcancel hrun (by omega) hreaches

/--
A timer of one second, alone in the queue: a `handleRead` that begins two seconds after it was added ends
without it.
-/
theorem one_second_late
    : ∃ s₁ s₂ : TimerLoop Unit,
        (system Unit).step (new 1700000000000000)
            (.addTimer 1 () (addTime (Timestamp.now 1700000000000000) ((1000000 : Nat) / 1000000)) 0) =
          some s₁
        ∧ (system Unit).run s₁ [.tick 2000000, .report, .handleRead, .reset] = some s₂
        ∧ s₂.ended = [1700000002000000] ∧ s₂.ran = []
        ∧ ¬s₂.FiresOnTime 1 1700000000000000 1000000 := by
  rw [addTime_microseconds]
  have hlate : Timestamp.now (1700000000000000 + (1000000 : Nat) + 1000000) <
      Timestamp.now 1700000000000000 + (1000000 : Nat) := by
    decide
  obtain ⟨s₁, s₂, hstep, hrun, hended, hran⟩ := late_run (φ := Unit) hlate
  refine ⟨s₁, s₂, hstep, hrun, hended, hran, ?_⟩
  intro hfires
  obtain ⟨r, hr, _⟩ := hfires.1 1700000002000000 (by simp [hended]) (by decide)
  simp [hran] at hr

end TimerLoop

end MyMuduo
