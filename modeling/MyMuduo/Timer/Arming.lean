import MyMuduo.Timer.Indices

/-!
This module contains the arming of the timerfd: for which expirations the operations call `resetTimerfd`,
and that behind every `handleRead` it stays armed early enough for what is in the queue.
-/

namespace MyMuduo

universe u

variable {φ : Type u}

theorem howMuchTimeFromNow_positive (when_ : Timestamp) (clock : Int)
    : howMuchTimeFromNow when_ clock ≠ ⟨0, 0⟩
        ∧ 0 ≤ (howMuchTimeFromNow when_ clock).tv_sec
        ∧ 0 ≤ (howMuchTimeFromNow when_ clock).tv_nsec
        ∧ (howMuchTimeFromNow when_ clock).tv_nsec < 1000000000 := by
  have hclamped : ∀ x : Int, 100 ≤ if x < 100 then 100 else x := by
    omega
  have hsecond : Timestamp.kMicroSecondsPerSecond = 1000000 := rfl
  simp only [howMuchTimeFromNow, ne_eq, Timespec.mk.injEq, hsecond]
  have hx := hclamped (when_ - Timestamp.now clock)
  generalize (if when_ - Timestamp.now clock < 100 then 100 else when_ - Timestamp.now clock) = x at hx
  have hdiv := Int.mul_tdiv_add_tmod x 1000000
  have hmod := Int.tmod_eq_emod_of_nonneg (b := 1000000) (a := x) (by omega)
  refine ⟨?_, ?_, ?_, ?_⟩
  . omega
  . omega
  . omega
  . omega

theorem le_addTime {now : Timestamp} {interval : Rat} (h : 0 < interval) : now ≤ addTime now interval := by
  have hdelta : 0 ≤ (interval * Timestamp.kMicroSecondsPerSecond).num := by
    rw [Rat.num_nonneg]
    apply Rat.mul_nonneg (Rat.le_of_lt h)
    decide
  have htrunc : 0 ≤ (interval * Timestamp.kMicroSecondsPerSecond).num.tdiv
      (interval * Timestamp.kMicroSecondsPerSecond).den :=
    Int.tdiv_nonneg hdelta (Int.natCast_nonneg _)
  exact Int.le_add_of_nonneg_right htrunc

namespace TimerQueue

variable {q q' : TimerQueue φ} {timer : Addr} {t : Timer φ} {clock : Int}

-- what `addTimerInLoop` passes to `resetTimerfd`
def addTimerInLoopArms (q : TimerQueue φ) (timer : Addr) : Option Timestamp :=
  (q.insert timer).bind fun (q, earliestChanged) =>
    if earliestChanged then (q.heap timer).map (·.expiration) else none

-- what `reset` passes to it
def resetArms (q : TimerQueue φ) (expired : List Entry) (now : Timestamp) : Option Timestamp :=
  (q.resetEntries now expired).bind fun q =>
    let nextExpire : Option Timestamp :=
      match q.timers.min? with
      | none => some Timestamp.invalid
      | some first => (q.heap (ofLex first).2).map (·.expiration)
    nextExpire.filter (·.valid)

-- when the timerfd expires that is armed for an expiration
def expiry (expiration : Timestamp) (clock : Int) : Int :=
  clock + max (expiration - Timestamp.now clock) 100

def rearmed (q : TimerQueue φ) (armed : Option Timestamp) (clock : Int) : TimerQueue φ :=
  match armed with
  | some expiration => q.resetTimerfd expiration clock
  | none => q

-- the same timerfd, armed by the same calls of `timerfd_settime`
def SameTimerfd (q q' : TimerQueue φ) : Prop :=
  q'.timerfd = q.timerfd ∧ q'.settimes = q.settimes

theorem SameTimerfd.refl (q : TimerQueue φ) : SameTimerfd q q :=
  ⟨rfl, rfl⟩

theorem SameTimerfd.trans {q'' : TimerQueue φ} (h : SameTimerfd q q') (h' : SameTimerfd q' q'')
    : SameTimerfd q q'' :=
  ⟨h'.1.trans h.1, h'.2.trans h.2⟩

theorem SameTimerfd.resetTimerfd (h : SameTimerfd q q') (expiration : Timestamp) (clock : Int)
    : SameTimerfd (q.resetTimerfd expiration clock) (q'.resetTimerfd expiration clock) := by
  refine ⟨rfl, ?_⟩
  simp only [TimerQueue.resetTimerfd, settime, h.2]

theorem SameTimerfd.rearmed (h : SameTimerfd q q') (armed : Option Timestamp) (clock : Int)
    : SameTimerfd (q.rearmed armed clock) (q'.rearmed armed clock) := by
  cases armed with
  | none => exact h
  | some expiration => exact h.resetTimerfd expiration clock

theorem settimes_readTimerfd (q : TimerQueue φ) (clock : Int)
    : (q.readTimerfd clock).settimes = q.settimes := by
  unfold readTimerfd
  split
  . split
    . rfl
    . rfl
  . rfl

theorem settimes_eraseActive {batch : List Entry} (h : q.eraseActive batch = some q')
    : q'.settimes = q.settimes := by
  induction batch generalizing q with
  | nil =>
    rw [eraseActive, Option.some.injEq] at h
    exact h ▸ rfl
  | cons it batch ih =>
    rw [eraseActive, Option.bind_eq_some_iff] at h
    obtain ⟨t, _, h⟩ := h
    have hkept := ih h
    exact hkept

theorem settimes_getExpired {now : Timestamp} {expired : List Entry}
    (h : q.getExpired now = some (q', expired)) : q'.settimes = q.settimes := by
  simp only [getExpired, Option.map_eq_some_iff, Prod.mk.injEq] at h
  obtain ⟨_, herase, rfl, _⟩ := h
  have hkept := settimes_eraseActive herase
  exact hkept

theorem timerfd_addTimerInLoop (h : q.addTimerInLoop timer clock = some q')
    : SameTimerfd (q.rearmed (q.addTimerInLoopArms timer) clock) q' := by
  simp only [addTimerInLoop, Option.bind_eq_some_iff] at h
  obtain ⟨⟨q₁, earliestChanged⟩, hinsert, hrest⟩ := h
  have hkept : SameTimerfd q q₁ := by
    simp only [insert, Option.map_eq_some_iff, Prod.mk.injEq] at hinsert
    obtain ⟨_, _, rfl, _⟩ := hinsert
    exact ⟨rfl, rfl⟩
  unfold addTimerInLoopArms
  simp only [hinsert, Option.bind_some]
  split at hrest
  . next hchanged =>
    simp only [Option.map_eq_some_iff] at hrest
    obtain ⟨t, ht, rfl⟩ := hrest
    rw [if_pos hchanged, ht]
    exact hkept.resetTimerfd _ _
  . next hchanged =>
    rw [Option.some.injEq] at hrest
    rw [if_neg hchanged, ← hrest]
    exact hkept

theorem timerfd_reset {now : Timestamp} {expired : List Entry} (h : q.reset expired now clock = some q')
    : SameTimerfd (q.rearmed (q.resetArms expired now) clock) q' := by
  simp only [reset, Option.bind_eq_some_iff] at h
  obtain ⟨q₁, hentries, hrest⟩ := h
  have hkept : SameTimerfd q q₁ := ⟨(resetEntries_kept hentries).1, (resetEntries_kept hentries).2.1⟩
  rw [Option.map_eq_some_iff] at hrest
  obtain ⟨nextExpire, hnext, rfl⟩ := hrest
  have harms : q.resetArms expired now = (some nextExpire).filter (·.valid) := by
    rw [resetArms, hentries, Option.bind_some]
    exact congrArg (Option.filter (·.valid)) hnext
  rw [harms, Option.filter_some]
  split
  . exact hkept.resetTimerfd _ _
  . exact hkept

/--
The timerfd is armed for a timer that is earlier than all others, and for no other one.
-/
theorem addTimerInLoopArms_cases (ht : q.heap timer = some t)
    : (q.addTimerInLoopArms timer = some t.expiration ∧ ∀ it ∈ q.timers, t.expiration < (ofLex it).1)
        ∨ (q.addTimerInLoopArms timer = none ∧ ∃ it ∈ q.timers, (ofLex it).1 ≤ t.expiration) := by
  simp only [addTimerInLoopArms, insert, ht, Option.map_some, Option.bind_some]
  cases hmin : q.timers.min? with
  | none =>
    refine .inl ⟨rfl, ?_⟩
    intro it hit
    exact absurd hit (SortedSet.min?_eq_none_iff.mp hmin it)
  | some first =>
    by_cases hlt : t.expiration < (ofLex first).1
    . refine .inl ⟨by simp [hlt], ?_⟩
      intro it hit
      exact lt_of_lt_of_le hlt (Prod.Lex.monotone_fst _ _ (SortedSet.min?_le hmin hit))
    . exact .inr ⟨by simp [hlt], first, SortedSet.mem_of_min? hmin, not_lt.mp hlt⟩

theorem resetArms_eq {outside : List Addr} {now : Timestamp} {expired : List Entry}
    (howns : q.Owns (addrs expired ++ outside)) (h : q.reset expired now clock = some q')
    : q.resetArms expired now = (q'.timers.min?.map fun first => (ofLex first).1).filter (·.valid) := by
  simp only [reset, Option.bind_eq_some_iff] at h
  obtain ⟨q₁, hentries, hrest⟩ := h
  rw [Option.map_eq_some_iff] at hrest
  obtain ⟨_, _, rfl⟩ := hrest
  obtain ⟨_, howns₁⟩ := resetEntries_eq_some howns hentries
  have htimers : ∀ b : Bool, ∀ e, (if b then q₁.resetTimerfd e clock else q₁).timers = q₁.timers := by
    intro b e
    split
    . rfl
    . rfl
  unfold resetArms
  simp only [hentries, Option.bind_some, htimers]
  cases hmin : q₁.timers.min? with
  | none => rfl
  | some first =>
    obtain ⟨t, ht, hwhen, _⟩ := (howns₁.timers (ofLex first).1 (ofLex first).2).mp (SortedSet.mem_of_min? hmin)
    simp only [ht, Option.map_some, hwhen]

end TimerQueue

namespace TimerLoop

open TimerQueue

variable {s s' : TimerLoop φ} {a : Label φ}

def Label.readsTimerfd : Label φ → Bool
  | .handleRead => true
  | _ => false

-- the expiration for which a step calls `resetTimerfd`
def arms (s : TimerLoop φ) : Label φ → Option Timestamp
  | .addTimer timer cb when_ interval =>
    (s.queue.allocated timer (Timer.new cb when_ interval s.queue.numCreated)).addTimerInLoopArms timer
  | .addTimerInLoop => s.queued.head?.bind s.queue.addTimerInLoopArms
  | .reset => s.frame.bind fun f => { s.queue with callingExpiredTimers := false }.resetArms f.expired f.now
  | _ => none

/--
Apart from the read, what a step does to the timerfd is the call of `resetTimerfd` for what it arms it for.
-/
theorem timerfd_next (hread : a.readsTimerfd = false) (hnext : s.next a = some s')
    : SameTimerfd (s.queue.rearmed (s.arms a) s.clock) s'.queue := by
  cases a with
  | handleRead => cases hread
  | tick | createTimer | report =>
    simp only [next, Option.some.injEq] at hnext
    exact hnext ▸ .refl _
  | addTimer timer cb when_ interval =>
    simp only [next, addTimer, Option.map_eq_some_iff, Option.bind_eq_some_iff] at hnext
    obtain ⟨_, ⟨q, hadd, _, _, rfl⟩, rfl⟩ := hnext
    have hallocated : SameTimerfd s.queue (s.queue.allocated timer (Timer.new cb when_ interval s.queue.numCreated)) :=
      ⟨rfl, rfl⟩
    exact (hallocated.rearmed _ _).trans (timerfd_addTimerInLoop hadd)
  | addTimerInLoop =>
    simp only [next] at hnext
    split at hnext
    . cases hnext
    . next timer queued hqueued =>
      simp only [Option.map_eq_some_iff] at hnext
      obtain ⟨q, hadd, rfl⟩ := hnext
      rw [arms, hqueued]
      exact timerfd_addTimerInLoop hadd
  | cancel timerId =>
    simp only [next, Option.map_eq_some_iff] at hnext
    obtain ⟨q, hcancel, rfl⟩ := hnext
    rw [cancelInLoop_eq] at hcancel
    split at hcancel
    . simp only [Option.map_eq_some_iff] at hcancel
      obtain ⟨_, _, rfl⟩ := hcancel
      exact .refl _
    . split at hcancel
      . rw [Option.some.injEq] at hcancel
        exact hcancel ▸ .refl _
      . rw [Option.some.injEq] at hcancel
        exact hcancel ▸ .refl _
  | run =>
    simp only [next, Option.bind_eq_some_iff] at hnext
    obtain ⟨f, _, hrun⟩ := hnext
    unfold TimerLoop.run at hrun
    split at hrun
    . cases hrun
    . simp only [Option.map_eq_some_iff] at hrun
      obtain ⟨_, _, rfl⟩ := hrun
      exact .refl _
  | return_ =>
    simp only [next, Option.map_eq_some_iff] at hnext
    obtain ⟨_, _, rfl⟩ := hnext
    exact .refl _
  | reset =>
    simp only [next, Option.bind_eq_some_iff] at hnext
    obtain ⟨f, hf, hreset⟩ := hnext
    simp only [TimerLoop.reset, Option.map_eq_some_iff] at hreset
    obtain ⟨q, hreset, rfl⟩ := hreset
    rw [arms, hf]
    have hcalled : SameTimerfd s.queue { s.queue with callingExpiredTimers := false } := ⟨rfl, rfl⟩
    exact (hcalled.rearmed _ _).trans (timerfd_reset hreset)

theorem settimes_next (hnext : s.next a = some s')
    : s'.queue.settimes =
        s.queue.settimes ++ (s.arms a).toList.map fun expiration => howMuchTimeFromNow expiration s.clock := by
  by_cases hread : a.readsTimerfd = true
  . cases a with
    | handleRead =>
      simp only [next, TimerLoop.handleRead, Option.map_eq_some_iff] at hnext
      obtain ⟨⟨q, expired⟩, hexpired, rfl⟩ := hnext
      have hkept : q.settimes = (s.queue.readTimerfd s.clock).settimes := settimes_getExpired hexpired
      rw [hkept, settimes_readTimerfd]
      exact (List.append_nil _).symm
    | _ => cases hread
  . rw [(timerfd_next (Bool.eq_false_iff.mpr hread) hnext).2]
    cases s.arms a with
    | none => exact (List.append_nil _).symm
    | some expiration => rfl

end TimerLoop

/--
A timer loop with history: the expiration and the real time of the last call of `resetTimerfd` since
`handleRead` has read the timerfd.
-/
structure Arming (φ : Type u) where
  loop : TimerLoop φ
  armed : Option (Timestamp × Int)

namespace Arming

open TimerQueue TimerLoop

variable {s s' : Arming φ} {a : Label φ}

def next (s : Arming φ) (a : Label φ) : Option (Arming φ) :=
  (s.loop.next a).map fun loop =>
    match s.loop.arms a with
    | some expiration => ⟨loop, some (expiration, s.loop.clock)⟩
    | none => ⟨loop, if a.readsTimerfd then none else s.armed⟩

-- `Timestamp::now` is positive, and `handleRead` may come at any time
def system (φ : Type u) : LTS (Arming φ) (Label φ) :=
  .guarded (fun s => ∃ clock, 0 < Timestamp.now clock ∧ s = ⟨.new clock, none⟩)
    (fun s => s.loop.enabledAnyTime) next

-- what is due at `when_` is not for the batch in progress to run, or the timerfd is armed for it
def Early (s : Arming φ) (when_ : Timestamp) : Prop :=
  (∃ f, s.loop.frame = some f ∧ f.now < when_)
    ∨ ∃ expiration clock, s.armed = some (expiration, clock) ∧ expiration ≤ when_

theorem Early.mono {when_ when_' : Timestamp} (h : s.Early when_) (hle : when_ ≤ when_') : s.Early when_' := by
  cases h with
  | inl hlate =>
    obtain ⟨f, hf, hlt⟩ := hlate
    exact .inl ⟨f, hf, lt_of_lt_of_le hlt hle⟩
  | inr harmed =>
    obtain ⟨expiration, clock, harmed, hearly⟩ := harmed
    exact .inr ⟨expiration, clock, harmed, le_trans hearly hle⟩

structure Inv (s : Arming φ) : Prop where
  loop : s.loop.Inv
  positive : 0 < Timestamp.now s.loop.clock
  now : ∀ f, s.loop.frame = some f → 0 < f.now
  repeat_ : ∀ timer t, s.loop.queue.heap timer = some t → t.repeat_ = true → 0 < t.interval
  early : ∀ it ∈ s.loop.queue.timers, s.Early (ofLex it).1
  timerfd : ∀ expiration clock, s.armed = some (expiration, clock) →
    s.loop.queue.timerfd = some (expiry expiration clock)
  settimes : ∀ v ∈ s.loop.queue.settimes, ∃ expiration clock, v = howMuchTimeFromNow expiration clock

theorem next_eq_some (h : s.next a = some s')
    : s.loop.next a = some s'.loop
        ∧ ((∃ expiration, s.loop.arms a = some expiration ∧ s'.armed = some (expiration, s.loop.clock))
            ∨ (s.loop.arms a = none ∧ s'.armed = if a.readsTimerfd then none else s.armed)) := by
  simp only [next, Option.map_eq_some_iff] at h
  obtain ⟨loop, hloop, rfl⟩ := h
  cases harms : s.loop.arms a with
  | none => exact ⟨hloop, .inr ⟨rfl, rfl⟩⟩
  | some expiration => exact ⟨hloop, .inl ⟨expiration, rfl, rfl⟩⟩

theorem Inv.settimes_step (h : s.Inv) (hnext : s.next a = some s')
    : ∀ v ∈ s'.loop.queue.settimes, ∃ expiration clock, v = howMuchTimeFromNow expiration clock := by
  intro v hv
  rw [settimes_next (next_eq_some hnext).1, List.mem_append, List.mem_map] at hv
  cases hv with
  | inl hold => exact h.settimes v hold
  | inr harmed =>
    obtain ⟨expiration, _, rfl⟩ := harmed
    exact ⟨expiration, s.loop.clock, rfl⟩

theorem Inv.timerfd_step (h : s.Inv) (hnext : s.next a = some s')
    : ∀ expiration clock, s'.armed = some (expiration, clock) →
        s'.loop.queue.timerfd = some (expiry expiration clock) := by
  have hloop := (next_eq_some hnext).1
  intro expiration clock harmed
  cases (next_eq_some hnext).2 with
  | inl harms =>
    obtain ⟨e, harms, heq⟩ := harms
    rw [heq, Option.some.injEq, Prod.mk.injEq] at harmed
    obtain ⟨rfl, rfl⟩ := harmed
    have hread : a.readsTimerfd = false := by
      cases a with
      | handleRead => cases harms
      | _ => rfl
    rw [(timerfd_next hread hloop).1, harms]
    exact timerfd_resetTimerfd _ _ _
  | inr hkept =>
    obtain ⟨harms, heq⟩ := hkept
    rw [heq] at harmed
    split at harmed
    . cases harmed
    . next hread =>
      rw [(timerfd_next (Bool.eq_false_iff.mpr hread) hloop).1, harms]
      exact h.timerfd expiration clock harmed

theorem Inv.repeat_step (h : s.Inv) (hsteps : Steps s.loop a s'.loop)
    : ∀ timer t, s'.loop.queue.heap timer = some t → t.repeat_ = true → 0 < t.interval := by
  have hold := h.repeat_
  generalize s'.loop = loop at hsteps
  have hnew : ∀ b (t : Timer φ), (t.repeat_ = true → 0 < t.interval) →
      ∀ timer t', Function.update s.loop.queue.heap b (some t) timer = some t' →
        t'.repeat_ = true → 0 < t'.interval := by
    intro b t ht timer t' ht'
    by_cases heq : timer = b
    . subst heq
      rw [Function.update_self, Option.some.injEq] at ht'
      exact ht' ▸ ht
    . rw [Function.update_of_ne heq] at ht'
      exact hold timer t' ht'
  cases hsteps with
  | tick | report | return_ | run => exact hold
  | addTimer b cb when_ interval t queue _ _ ht hsame =>
    rw [hsame.heap]
    apply hnew
    simp [ht, Timer.new]
  | createTimer b cb when_ interval t _ ht =>
    apply hnew
    simp [ht, Timer.new]
  | addTimerInLoop b t queued queue _ _ _ hsame =>
    rw [hsame.heap]
    exact hold
  | cancelPending b t _ _ _ =>
    intro timer t' ht'
    simp only [TimerQueue.freed, erased] at ht'
    by_cases heq : timer = b
    . simp [heq] at ht'
    . rw [Function.update_of_ne heq] at ht'
      exact hold timer t' ht'
  | cancelOther timerId =>
    rw [(s.loop.queue.canceling_eq timerId).2.2.1]
    exact hold
  | handleRead f queue _ _ _ _ _ _ _ hexpiry _ =>
    rw [hexpiry.heap]
    exact hold
  | reset f queue _ _ _ hrenewed _ =>
    intro timer t' ht'
    by_cases hmem : timer ∈ addrs f.expired
    . rw [hrenewed.batch timer hmem, Option.bind_eq_some_iff] at ht'
      obtain ⟨t, ht, hrenew⟩ := ht'
      unfold renewed at hrenew
      split at hrenew
      . rw [Option.some.injEq] at hrenew
        have hkept : t'.repeat_ = t.repeat_ ∧ t'.interval = t.interval := by
          rw [← hrenew, Timer.restart]
          split
          . exact ⟨rfl, rfl⟩
          . exact ⟨rfl, rfl⟩
        rw [hkept.1, hkept.2]
        exact hold timer t ht
      . cases hrenew
    . rw [hrenewed.others timer hmem] at ht'
      exact hold timer t' ht'

theorem Early.kept {when_ : Timestamp} (h : s.Early when_)
    (hframe : ∀ f, s.loop.frame = some f → ∃ f', s'.loop.frame = some f' ∧ f'.now = f.now)
    (harmed : s'.armed = s.armed) : s'.Early when_ := by
  cases h with
  | inl hlate =>
    obtain ⟨f, hf, hlt⟩ := hlate
    obtain ⟨f', hf', hnow⟩ := hframe f hf
    exact .inl ⟨f', hf', hnow ▸ hlt⟩
  | inr hearly =>
    obtain ⟨expiration, clock, heq, hle⟩ := hearly
    exact .inr ⟨expiration, clock, harmed.trans heq, hle⟩

/--
An insertion keeps the arming unless the timer is earlier than all others, and then the timerfd is armed
for it.
-/
theorem early_inserted {q : TimerQueue φ} {timer : Addr} {t : Timer φ} (ht : q.heap timer = some t)
    (hold : ∀ it ∈ q.timers, s.Early (ofLex it).1) (hframe : s'.loop.frame = s.loop.frame)
    (harms : (∃ expiration, q.addTimerInLoopArms timer = some expiration
          ∧ s'.armed = some (expiration, s.loop.clock))
        ∨ (q.addTimerInLoopArms timer = none ∧ s'.armed = s.armed))
    : ∀ it ∈ (q.inserted timer t).timers, s'.Early (ofLex it).1 := by
  intro it hit
  simp only [inserted, SortedSet.mem_insert] at hit
  have hkept : ∀ when_, s.Early when_ → s'.armed = s.armed → s'.Early when_ := by
    intro when_ hearly harmed
    refine hearly.kept ?_ harmed
    intro f hf
    exact ⟨f, hframe.trans hf, rfl⟩
  cases addTimerInLoopArms_cases ht with
  | inl hfirst =>
    obtain ⟨hexpiration, hlt⟩ := hfirst
    rw [hexpiration] at harms
    have harmed : s'.armed = some (t.expiration, s.loop.clock) := by
      simpa using harms
    refine .inr ⟨_, _, harmed, ?_⟩
    cases hit with
    | inl heq => exact heq ▸ le_refl _
    | inr hmem => exact le_of_lt (hlt it hmem)
  | inr hlater =>
    obtain ⟨hnone, first, hfirst, hle⟩ := hlater
    rw [hnone] at harms
    have harmed : s'.armed = s.armed := by
      simpa using harms
    cases hit with
    | inl heq =>
      rw [heq]
      exact hkept _ ((hold first hfirst).mono hle) harmed
    | inr hmem => exact hkept _ (hold it hmem) harmed

/--
What `reset` puts into the queue is due later than the batch was: an entry without a valid expiration has
been there before.
-/
theorem Inv.early_of_invalid {f : HandleRead} {queue : TimerQueue φ} (h : s.Inv)
    (hf : s.loop.frame = some f)
    (hrenewed : Renewed { s.loop.queue with callingExpiredTimers := false } queue f.now f.expired)
    (howns : queue.Owns s.loop.queued) {it : Entry} (hit : it ∈ queue.timers)
    (hinvalid : Timestamp.valid (ofLex it).1 = false)
    : ∃ expiration clock, s.armed = some (expiration, clock) ∧ expiration ≤ (ofLex it).1 := by
  have hnow := h.now f hf
  have hit : toLex ((ofLex it).1, (ofLex it).2) ∈ queue.timers := hit
  obtain ⟨t, ht, hwhen, hnotMem⟩ := (howns.timers _ _).mp hit
  have hle : (ofLex it).1 ≤ (0 : Int) := by
    simpa [Timestamp.valid] using hinvalid
  have hbatch : (ofLex it).2 ∉ addrs f.expired := by
    intro hmem
    rw [hrenewed.batch _ hmem, Option.bind_eq_some_iff] at ht
    obtain ⟨t', ht', hrenew⟩ := ht
    unfold renewed at hrenew
    split at hrenew
    . next hrepeat =>
      simp only [Bool.and_eq_true] at hrepeat
      have hinterval := h.repeat_ _ t' ht' hrepeat.1
      rw [Option.some.injEq, Timer.restart, if_pos hrepeat.1] at hrenew
      rw [← hrenew] at hwhen
      have hlater : f.now ≤ addTime f.now t'.interval := le_addTime hinterval
      have hlate : f.now ≤ (ofLex it).1 := hwhen ▸ hlater
      exact absurd (lt_of_lt_of_le hnow (le_trans hlate hle)) (lt_irrefl _)
    . cases hrenew
  rw [hrenewed.others _ hbatch] at ht
  have hbefore : it ∈ s.loop.queue.timers := by
    change toLex ((ofLex it).1, (ofLex it).2) ∈ s.loop.queue.timers
    rw [h.loop.owns.timers, batch_of_some hf]
    refine ⟨t, ht, hwhen, ?_⟩
    rw [List.mem_append, not_or]
    exact ⟨hbatch, hnotMem⟩
  cases h.early it hbefore with
  | inl hlate =>
    obtain ⟨f', hf', hlt⟩ := hlate
    exact absurd (lt_trans (h.now f' hf') (lt_of_lt_of_le hlt hle)) (lt_irrefl _)
  | inr hearly => exact hearly

theorem Inv.early_reset {f : HandleRead} {queue : TimerQueue φ} (h : s.Inv) (hf : s.loop.frame = some f)
    (hrenewed : Renewed { s.loop.queue with callingExpiredTimers := false } queue f.now f.expired)
    (howns : queue.Owns s.loop.queued)
    (harms : (∃ expiration, (queue.timers.min?.map fun first => (ofLex first).1).filter (·.valid)
            = some expiration ∧ s'.armed = some (expiration, s.loop.clock))
        ∨ ((queue.timers.min?.map fun first => (ofLex first).1).filter (·.valid) = none
          ∧ s'.armed = s.armed))
    : ∀ it ∈ queue.timers, s'.Early (ofLex it).1 := by
  intro it hit
  cases hmin : queue.timers.min? with
  | none => exact absurd hit (SortedSet.min?_eq_none_iff.mp hmin it)
  | some first =>
    have hle : (ofLex first).1 ≤ (ofLex it).1 := Prod.Lex.monotone_fst _ _ (SortedSet.min?_le hmin hit)
    rw [hmin, Option.map_some, Option.filter_some] at harms
    cases hvalid : Timestamp.valid (ofLex first).1 with
    | true =>
      have harmed : s'.armed = some ((ofLex first).1, s.loop.clock) := by
        simpa [hvalid] using harms
      exact .inr ⟨_, _, harmed, hle⟩
    | false =>
      have harmed : s'.armed = s.armed := by
        simpa [hvalid] using harms
      obtain ⟨expiration, clock, heq, hearly⟩ :=
        h.early_of_invalid hf hrenewed howns (SortedSet.mem_of_min? hmin) hvalid
      exact .inr ⟨expiration, clock, harmed.trans heq, le_trans hearly hle⟩

theorem Inv.early_step (h : s.Inv) (henabled : s.loop.enabledAnyTime a = true) (hnext : s.next a = some s')
    : ∀ it ∈ s'.loop.queue.timers, s'.Early (ofLex it).1 := by
  have hold := h.early
  have hloop := (next_eq_some hnext).1
  have harms := (next_eq_some hnext).2
  have hsteps := h.loop.steps_of_next henabled hloop
  obtain ⟨loop, armed⟩ := s'
  dsimp only at hloop harms hsteps ⊢
  have hsame : s.loop.arms a = none → a.readsTimerfd = false → armed = s.armed := by
    intro hnone hread
    simpa [hnone, hread] using harms
  cases hsteps with
  | tick microseconds =>
    intro it hit
    exact (hold it hit).kept (fun f hf => ⟨f, hf, rfl⟩) (hsame rfl rfl)
  | report =>
    intro it hit
    exact (hold it hit).kept (fun f hf => ⟨f, hf, rfl⟩) (hsame rfl rfl)
  | createTimer =>
    intro it hit
    exact (hold it hit).kept (fun f hf => ⟨f, hf, rfl⟩) (hsame rfl rfl)
  | cancelPending timer t =>
    intro it hit
    have hmem : it ∈ s.loop.queue.timers := by
      simp only [TimerQueue.freed, erased, SortedSet.mem_erase] at hit
      exact hit.1
    exact (hold it hmem).kept (fun f hf => ⟨f, hf, rfl⟩) (hsame rfl rfl)
  | cancelOther timerId =>
    intro it hit
    have hmem : it ∈ s.loop.queue.timers := by
      rw [← (s.loop.queue.canceling_eq timerId).1]
      exact hit
    exact (hold it hmem).kept (fun f hf => ⟨f, hf, rfl⟩) (hsame rfl rfl)
  | run f when_ timer t todo hf =>
    intro it hit
    refine (hold it hit).kept ?_ (hsame rfl rfl)
    rintro f' hf'
    rw [hf, Option.some.injEq] at hf'
    exact ⟨_, rfl, hf' ▸ rfl⟩
  | return_ f hf =>
    intro it hit
    refine (hold it hit).kept ?_ (hsame rfl rfl)
    rintro f' hf'
    rw [hf, Option.some.injEq] at hf'
    exact ⟨_, rfl, hf' ▸ rfl⟩
  | addTimer timer cb when_ interval t queue _ _ ht hqueue =>
    subst ht
    rw [hqueue.timers]
    refine early_inserted (Function.update_self ..) hold rfl ?_
    simpa [TimerLoop.arms, Label.readsTimerfd] using harms
  | addTimerInLoop timer t queued queue _ hqueued ht hqueue =>
    rw [hqueue.timers]
    refine early_inserted ht hold rfl ?_
    simpa [TimerLoop.arms, Label.readsTimerfd, hqueued] using harms
  | handleRead f queue hframe _ _ _ _ _ _ hexpiry howns =>
    intro it hit
    refine .inl ⟨f, rfl, ?_⟩
    have hit : toLex ((ofLex it).1, (ofLex it).2) ∈ queue.timers := hit
    obtain ⟨t, ht, hwhen, hnotMem⟩ := (howns.timers _ _).mp hit
    rw [List.mem_append, not_or] at hnotMem
    by_contra hdue
    apply hnotMem.1
    rw [mem_addrs]
    refine ⟨(ofLex it).1, (hexpiry.mem _ _).mpr ⟨?_, not_lt.mp hdue⟩⟩
    have howned := h.loop.owns
    rw [batch_of_none hframe] at howned
    rw [howned.timers, ← hexpiry.heap]
    exact ⟨t, ht, hwhen, hnotMem.2⟩
  | reset f queue hf _ _ hrenewed howns =>
    refine h.early_reset hf hrenewed howns ?_
    simp only [TimerLoop.next, hf, Option.bind_some, TimerLoop.reset, Option.map_eq_some_iff,
      TimerLoop.mk.injEq] at hloop
    obtain ⟨_, hreset, _, rfl, _⟩ := hloop
    have howned : { s.loop.queue with callingExpiredTimers := false }.Owns (addrs f.expired ++ s.loop.queued) :=
      (batch_of_some hf ▸ h.loop.owns).congr rfl rfl rfl
    rw [← resetArms_eq howned hreset]
    simpa [TimerLoop.arms, Label.readsTimerfd, hf] using harms

theorem Inv.positive_step (h : s.Inv) (hsteps : Steps s.loop a s'.loop) : 0 < Timestamp.now s'.loop.clock := by
  have hnow := h.positive
  generalize s'.loop = loop at hsteps
  cases hsteps with
  | tick microseconds =>
    have hle : s.loop.clock / 1000000 ≤ (s.loop.clock + microseconds) / 1000000 :=
      Int.ediv_le_ediv (by decide) (Int.le_add_of_nonneg_right (Int.natCast_nonneg _))
    exact lt_of_lt_of_le hnow hle
  | _ => exact hnow

theorem Inv.now_step (h : s.Inv) (hsteps : Steps s.loop a s'.loop) : ∀ f, s'.loop.frame = some f → 0 < f.now := by
  have hnow := h.now
  have hpositive := h.positive
  generalize s'.loop = loop at hsteps
  cases hsteps with
  | tick | report | addTimer | createTimer | addTimerInLoop | cancelPending | cancelOther => exact hnow
  | handleRead f queue _ _ heq =>
    rintro _ ⟨rfl⟩
    exact heq ▸ hpositive
  | run f when_ timer t todo hf =>
    rintro _ ⟨rfl⟩
    exact hnow f hf
  | return_ f hf =>
    rintro _ ⟨rfl⟩
    exact hnow f hf
  | reset =>
    intro _ hnone
    cases hnone

theorem inv_reachable (h : (system φ).Reachable s) : s.Inv := by
  refine LTS.Reachable.invariant Inv ?_ ?_ h
  . rintro _ ⟨clock, hclock, rfl⟩
    refine ⟨.new clock, hclock, ?_, ?_, ?_, ?_, ?_⟩
    . intro f hf
      cases hf
    . intro timer t ht
      cases ht
    . intro it hit
      cases hit
    . intro expiration clock harmed
      cases harmed
    . intro v hv
      cases hv
  . intro s a s' hinv hstep
    obtain ⟨henabled, hnext⟩ := LTS.guarded_step.mp hstep
    have hsteps := hinv.loop.steps_of_next henabled (next_eq_some hnext).1
    refine ⟨hinv.loop.of_steps hsteps, hinv.positive_step hsteps, hinv.now_step hsteps, hinv.repeat_step hsteps,
      hinv.early_step henabled hnext, hinv.timerfd_step hnext, hinv.settimes_step hnext⟩

/--
Behind every `handleRead` the timerfd is armed for an expiration that is not later than the earliest one, and
no value ever disarms it.
-/
theorem armed_early (s : Arming φ) (h : (system φ).Reachable s)
    : (s.loop.frame = none → ∀ first, s.loop.queue.timers.min? = some first →
        ∃ expiration clock, s.armed = some (expiration, clock) ∧ expiration ≤ (ofLex first).1
          ∧ s.loop.queue.timerfd = some (clock + max (expiration - Timestamp.now clock) 100))
      ∧ ∀ v ∈ s.loop.queue.settimes, v ≠ ⟨0, 0⟩ ∧ 0 ≤ v.tv_sec ∧ 0 ≤ v.tv_nsec ∧ v.tv_nsec < 1000000000 := by
  have hinv := inv_reachable h
  constructor
  . intro hframe first hfirst
    cases hinv.early first (SortedSet.mem_of_min? hfirst) with
    | inl hlate =>
      obtain ⟨f, hf, _⟩ := hlate
      rw [hframe] at hf
      cases hf
    | inr hearly =>
      obtain ⟨expiration, clock, harmed, hle⟩ := hearly
      exact ⟨expiration, clock, harmed, hle, hinv.timerfd expiration clock harmed⟩
  . intro v hv
    obtain ⟨expiration, clock, rfl⟩ := hinv.settimes v hv
    exact howMuchTimeFromNow_positive expiration clock

-- a callback adds a timer whose expiration is invalid, and `reset` does not arm the timerfd
def addedInvalid : Arming Unit :=
  ((system Unit).run ⟨.new 1000000, none⟩
    [.addTimer 1 () 1 0, .handleRead, .run, .addTimer 2 () (-3) 0, .addTimer 3 () (-5) 0, .cancel ⟨3, 3⟩, .return_,
      .reset]).get rfl

theorem armed_early_addedInvalid
    : addedInvalid.loop.queue.timers.min? = some (toLex (-3, 2))
        ∧ ∃ expiration clock, addedInvalid.armed = some (expiration, clock) ∧ expiration ≤ -3
          ∧ addedInvalid.loop.queue.timerfd = some (clock + max (expiration - Timestamp.now clock) 100) := by
  have hs : (system Unit).Reachable addedInvalid :=
    LTS.Reachable.run (.init ⟨1000000, by decide, rfl⟩) (Option.some_get _).symm
  have hmin : addedInvalid.loop.queue.timers.min? = some (toLex (-3, 2)) := rfl
  exact ⟨hmin, (armed_early addedInvalid hs).1 rfl (toLex (-3, 2)) hmin⟩

end Arming

end MyMuduo
