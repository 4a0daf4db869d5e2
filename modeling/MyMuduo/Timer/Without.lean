import MyMuduo.Timer.Cancel

/-!
This module contains a timer loop without one of its timers, and that the steps of the loop do to the other
timers what they do without it.
-/

namespace MyMuduo

universe u

variable {φ : Type u}

attribute [ext] TimerQueue

namespace TimerQueue

variable {q q' : TimerQueue φ} {outside : List Addr} {x : TimerId} {timer : Addr}

-- the timer that the id names lives, and this is its address
def isAt (q : TimerQueue φ) (x : TimerId) (timer : Addr) : Bool :=
  (q.heap timer).any fun t => { timer := timer, sequence := t.sequence : TimerId } == x

def without (q : TimerQueue φ) (x : TimerId) : TimerQueue φ :=
  { q with
      timers := q.timers.filter fun it => !q.isAt x (ofLex it).2
      activeTimers := q.activeTimers.erase (toLex (x.timer, x.sequence))
      cancelingTimers := q.cancelingTimers.erase (toLex (x.timer, x.sequence))
      heap := fun timer =>
        (q.heap timer).filter fun t => { timer := timer, sequence := t.sequence : TimerId } != x }

theorem isAt_iff : q.isAt x timer = true ↔ timer = x.timer ∧ ∃ t, q.heap timer = some t ∧ t.sequence = x.sequence := by
  unfold isAt
  rw [Option.any_eq_true]
  constructor
  . rintro ⟨t, ht, heq⟩
    rw [beq_iff_eq] at heq
    subst heq
    exact ⟨rfl, t, ht, rfl⟩
  . rintro ⟨rfl, t, ht, heq⟩
    refine ⟨t, ht, ?_⟩
    rw [heq]
    exact beq_self_eq_true x

theorem isAt_congr (h : q'.heap timer = q.heap timer) : q'.isAt x timer = q.isAt x timer := by
  unfold isAt
  rw [h]

theorem isAt_of_none (h : q.heap timer = none) : q.isAt x timer = false := by
  unfold isAt
  rw [h]
  rfl

theorem heap_without : (q.without x).heap timer = if q.isAt x timer then none else q.heap timer := by
  unfold without isAt
  dsimp only
  cases q.heap timer with
  | none => rfl
  | some t =>
    cases hsame : ({ timer := timer, sequence := t.sequence : TimerId } == x) with
    | true =>
      simp only [Option.filter_some, Option.any_some, bne, hsame, Bool.not_true, Bool.false_eq_true, if_false,
        if_true]
    | false =>
      simp only [Option.filter_some, Option.any_some, bne, hsame, Bool.not_false, Bool.false_eq_true, if_false,
        if_true]

theorem heap_without_eq_some {t : Timer φ}
    : (q.without x).heap timer = some t ↔ q.heap timer = some t ∧ q.isAt x timer = false := by
  rw [heap_without]
  cases q.isAt x timer <;> simp

theorem addrs_filter (batch : List Entry) (p : Addr → Bool)
    : addrs (batch.filter fun it => p (ofLex it).2) = (addrs batch).filter p := by
  unfold addrs
  rw [List.filter_map]
  rfl

theorem Owns.without (h : q.Owns outside) (x : TimerId)
    : (q.without x).Owns (outside.filter fun timer => !q.isAt x timer) := by
  constructor
  . intro when_ timer
    simp only [heap_without_eq_some]
    simp only [TimerQueue.without, SortedSet.mem_filter, h.timers, List.mem_filter, Bool.not_eq_true']
    constructor
    . rintro ⟨⟨t, ht, hwhen, hnotMem⟩, hother⟩
      exact ⟨t, ⟨ht, hother⟩, hwhen, fun hmem => hnotMem hmem.1⟩
    . rintro ⟨t, ⟨ht, hother⟩, hwhen, hnotMem⟩
      exact ⟨⟨t, ht, hwhen, fun hmem => hnotMem ⟨hmem, hother⟩⟩, hother⟩
  . intro timer sequence
    simp only [heap_without_eq_some]
    simp only [TimerQueue.without, SortedSet.mem_erase, h.activeTimers, List.mem_filter, Bool.not_eq_true']
    constructor
    . rintro ⟨⟨t, ht, hsequence, hnotMem⟩, hne⟩
      have hother : q.isAt x timer = false := by
        rw [Bool.eq_false_iff, ne_eq, isAt_iff]
        rintro ⟨rfl, t', ht', hsequence'⟩
        rw [ht, Option.some.injEq] at ht'
        apply hne
        rw [← hsequence, ← hsequence', ht']
      exact ⟨t, ⟨ht, hother⟩, hsequence, fun hmem => hnotMem hmem.1⟩
    . rintro ⟨t, ⟨ht, hother⟩, hsequence, hnotMem⟩
      refine ⟨⟨t, ht, hsequence, fun hmem => hnotMem ⟨hmem, hother⟩⟩, ?_⟩
      intro heq
      simp only [EmbeddingLike.apply_eq_iff_eq, Prod.mk.injEq] at heq
      obtain ⟨rfl, rfl⟩ := heq
      rw [Bool.eq_false_iff, ne_eq, isAt_iff] at hother
      exact hother ⟨rfl, t, ht, hsequence⟩
  . intro timer hmem
    rw [List.mem_filter, Bool.not_eq_true'] at hmem
    obtain ⟨t, ht⟩ := h.live timer hmem.1
    exact ⟨t, heap_without_eq_some.mpr ⟨ht, hmem.2⟩⟩
  . exact h.nodup.filter _

theorem heap_without_same (hheap : q'.heap = q.heap) : (q'.without x).heap = (q.without x).heap := by
  funext timer
  rw [heap_without, heap_without, isAt_congr (congrFun hheap timer), hheap]

theorem heap_without_update {b : Addr} {t : Option (Timer φ)} (hheap : q'.heap = Function.update q.heap b t)
    (hsame : q'.isAt x = q.isAt x) (hother : q.isAt x b = false)
    : (q'.without x).heap = Function.update (q.without x).heap b t := by
  funext timer
  rw [heap_without, hsame, hheap]
  by_cases heq : timer = b
  . subst heq
    rw [hother, Function.update_self, Function.update_self, if_neg Bool.false_ne_true]
  . rw [Function.update_of_ne heq, Function.update_of_ne heq, heap_without]

/--
Who owns the timers determines the two sets.
-/
theorem Owns.timers_eq {outside' : List Addr} (h : q.Owns outside) (h' : q'.Owns outside')
    (hheap : q'.heap = q.heap) (houtside : ∀ timer, timer ∈ outside' ↔ timer ∈ outside)
    : q'.timers = q.timers ∧ q'.activeTimers = q.activeTimers := by
  constructor
  . apply SortedSet.ext
    intro it
    have heq := h.timers (ofLex it).1 (ofLex it).2
    have heq' := h'.timers (ofLex it).1 (ofLex it).2
    simp only [hheap, houtside] at heq'
    exact heq'.trans heq.symm
  . apply SortedSet.ext
    intro key
    have heq := h.activeTimers (ofLex key).1 (ofLex key).2
    have heq' := h'.activeTimers (ofLex key).1 (ofLex key).2
    simp only [hheap, houtside] at heq'
    exact heq'.trans heq.symm

end TimerQueue

namespace TimerLoop

open TimerQueue

variable {s s' o o' : TimerLoop φ} {a : Label φ} {x : TimerId}

def without (s : TimerLoop φ) (x : TimerId) : TimerLoop φ :=
  { s with
      queue := s.queue.without x
      queued := s.queued.filter fun timer => !s.queue.isAt x timer
      frame :=
        s.frame.map fun f =>
          { f with
              expired := f.expired.filter fun it => !s.queue.isAt x (ofLex it).2
              todo := f.todo.filter fun it => !s.queue.isAt x (ofLex it).2 }
      ran := s.ran.filter fun r => r.sequence != x.sequence }

-- forgets what the timerfd has been armed for, and whether the loop is in a callback
def unarmed (s : TimerLoop φ) : TimerLoop φ :=
  { s with
      queue := { s.queue with timerfd := none, settimes := [] }
      reported := false
      frame := s.frame.map fun f => { f with running := false } }

/--
The steps that do something to other timers than the one that the id names.
-/
def visible (s : TimerLoop φ) (x : TimerId) : Label φ → Bool
  | .addTimerInLoop => !s.queued.head?.any (s.queue.isAt x)
  | .run => s.frame.any fun f => !f.todo.head?.any fun it => s.queue.isAt x (ofLex it).2
  | .cancel timerId => timerId != x
  | .report | .return_ => false
  | _ => true

theorem batch_without : addrs (s.without x).batch = (addrs s.batch).filter fun timer => !s.queue.isAt x timer := by
  unfold batch without
  cases s.frame with
  | none => rfl
  | some f => exact addrs_filter f.expired fun timer => !s.queue.isAt x timer

theorem Inv.without (h : s.Inv) (x : TimerId) : (s.without x).Inv := by
  refine ⟨?_, ?_, ?_, ?_, ?_⟩
  . rw [batch_without]
    have howns := h.owns.without x
    rw [List.filter_append] at howns
    exact howns
  . intro timer t ht
    exact h.addressable timer t (heap_without_eq_some.mp ht).1
  . intro timer t ht
    exact h.numbered timer t (heap_without_eq_some.mp ht).1
  . intro r hr
    exact h.ranNumbered r (List.mem_filter.mp hr).1
  . intro f' hf'
    simp only [TimerLoop.without, Option.map_eq_some_iff] at hf'
    obtain ⟨f, hf, rfl⟩ := hf'
    exact (h.todo f hf).filter _

/--
Two states that agree on the timers, the functors and the batch agree on the two sets.
-/
theorem Inv.timers_eq (ho : o.Inv) (ho' : o'.Inv) (hheap : o'.queue.heap = o.queue.heap)
    (hbatch : o'.batch = o.batch) (hqueued : o'.queued = o.queued)
    : o'.queue.timers = o.queue.timers ∧ o'.queue.activeTimers = o.queue.activeTimers := by
  refine ho.owns.timers_eq ho'.owns hheap ?_
  intro timer
  rw [hbatch, hqueued]

theorem batch_congr (hframe : (o'.frame.map fun f => { f with running := false })
    = o.frame.map fun f => { f with running := false }) : o'.batch = o.batch := by
  have hexpired := congrArg (Option.map HandleRead.expired) hframe
  simp only [Option.map_map] at hexpired
  unfold batch
  cases hf : o.frame with
  | none =>
    cases hf' : o'.frame with
    | none => rfl
    | some f' => simp [hf, hf'] at hexpired
  | some f =>
    cases hf' : o'.frame with
    | none => simp [hf, hf'] at hexpired
    | some f' => simpa [hf, hf'] using hexpired

theorem unarmed_ext (ho : o.Inv) (ho' : o'.Inv) (hclock : o'.clock = o.clock)
    (hheap : o'.queue.heap = o.queue.heap) (hnumCreated : o'.queue.numCreated = o.queue.numCreated)
    (hcalling : o'.queue.callingExpiredTimers = o.queue.callingExpiredTimers)
    (hcanceling : o'.queue.cancelingTimers = o.queue.cancelingTimers) (hqueued : o'.queued = o.queued)
    (hframe : (o'.frame.map fun f => { f with running := false })
      = o.frame.map fun f => { f with running := false })
    (hended : o'.ended = o.ended) (hran : o'.ran = o.ran) : o'.unarmed = o.unarmed := by
  obtain ⟨htimers, hactive⟩ := ho.timers_eq ho' hheap (batch_congr hframe) hqueued
  obtain ⟨clock, ⟨_, _, _, _, _, _, _⟩, queued, reported, frame, ended, ran⟩ := o
  obtain ⟨clock', ⟨_, _, _, _, _, _, _⟩, queued', reported', frame', ended', ran'⟩ := o'
  simp only at *
  simp only [unarmed, *]

theorem offered_without (henabled : s.enabledAnyTime a = true) (hnext : s.next a = some s')
    (hvisible : s.visible x a = true) : (s.without x).offered a := by
  have hallocates : ∀ timer, s.allocates timer = true → (s.without x).allocates timer = true := by
    intro timer halloc
    rw [allocates_iff] at halloc ⊢
    refine ⟨?_, halloc.2⟩
    change (s.queue.without x).heap timer = none
    rw [heap_without, halloc.1, ite_self]
  have hcode : (s.without x).inUserCode = s.inUserCode := by
    unfold inUserCode TimerLoop.without
    cases s.frame <;> rfl
  have hframe : s.frame = none → (s.without x).frame = none := by
    intro hf
    simp only [TimerLoop.without, hf, Option.map_none]
  cases a with
  | tick => rfl
  | report | return_ => cases hvisible
  | addTimer timer =>
    simp only [enabledAnyTime, enabled, Bool.and_eq_true] at henabled
    simp only [offered, enabledAnyTime, enabled, Bool.and_eq_true, hcode]
    exact ⟨henabled.1, hallocates timer henabled.2⟩
  | createTimer timer => exact hallocates timer henabled
  | cancel timerId => exact hcode.trans henabled
  | handleRead =>
    simp only [enabledAnyTime, Option.isNone_iff_eq_none] at henabled
    simp only [offered, enabledAnyTime, Option.isNone_iff_eq_none]
    exact hframe henabled
  | addTimerInLoop =>
    simp only [enabledAnyTime, enabled, Option.isNone_iff_eq_none] at henabled
    refine ⟨hframe henabled, ?_⟩
    simp only [next] at hnext
    split at hnext
    . cases hnext
    . next timer queued hqueued =>
      simp only [visible, hqueued, List.head?_cons, Option.any_some] at hvisible
      simp [TimerLoop.without, hqueued, hvisible]
  | run =>
    simp only [next, Option.bind_eq_some_iff] at hnext
    obtain ⟨f, hf, hrun⟩ := hnext
    simp only [enabledAnyTime, enabled, hf, Option.any_some, Bool.not_eq_true'] at henabled
    unfold TimerLoop.run at hrun
    split at hrun
    . cases hrun
    . next it todo htodo =>
      simp only [visible, hf, htodo, List.head?_cons, Option.any_some] at hvisible
      simp [offered, TimerLoop.without, hf, henabled, htodo, hvisible]
  | reset =>
    simp only [enabledAnyTime, enabled, Option.any_eq_true, Bool.and_eq_true, List.isEmpty_iff] at henabled
    obtain ⟨f, hf, hrunning, htodo⟩ := henabled
    simp only [offered, enabledAnyTime, enabled, TimerLoop.without, hf, Option.map_some, Option.any_some, hrunning,
      htodo, List.filter_nil, List.isEmpty_nil, Bool.and_self]

theorem expired_without {queue queue' : TimerQueue φ} {now now' : Timestamp} {expired expired' : List Entry}
    (hexpiry : Expiry s.queue queue now expired) (hexpiry' : Expiry (s.without x).queue queue' now' expired')
    (hnow : now' = now) : expired' = expired.filter fun it => !s.queue.isAt x (ofLex it).2 := by
  refine hexpiry'.sorted.eq_of_mem_iff (hexpiry.sorted.filter _) ?_
  intro it
  have hmem := hexpiry.mem (ofLex it).1 (ofLex it).2
  have hmem' := hexpiry'.mem (ofLex it).1 (ofLex it).2
  have hkept : it ∈ (s.without x).queue.timers ↔ it ∈ s.queue.timers ∧ (!s.queue.isAt x (ofLex it).2) = true :=
    SortedSet.mem_filter
  rw [hnow] at hmem'
  rw [List.mem_filter]
  refine hmem'.trans ?_
  rw [show (it ∈ expired) = _ from propext hmem]
  change it ∈ (s.without x).queue.timers ∧ _ ↔ _
  rw [hkept]
  exact and_right_comm

-- where the timer is changes only with its cancellation and at the end of its batch
theorem isAt_step (hissued : s.Issued x) (hsteps : Steps s a s') (hreset : a ≠ .reset)
    (hcancel : a ≠ .cancel x) : s'.queue.isAt x = s.queue.isAt x := by
  funext timer
  have hnew : ∀ (b : Addr) (t : Timer φ) (q : TimerQueue φ), s.allocates b = true →
      t.sequence = s.queue.numCreated + 1 → q.heap = Function.update s.queue.heap b (some t) →
        q.isAt x timer = s.queue.isAt x timer := by
    intro b t q halloc hsequence hheap
    by_cases heq : timer = b
    . subst heq
      rw [isAt_of_none (allocates_iff.mp halloc).1, Bool.eq_false_iff, ne_eq, isAt_iff]
      rintro ⟨_, t', ht', hsequence'⟩
      rw [hheap, Function.update_self, Option.some.injEq] at ht'
      have hle := hissued.numCreated
      rw [← hsequence', ← ht', hsequence] at hle
      omega
    . apply isAt_congr
      rw [hheap, Function.update_of_ne heq]
  cases hsteps with
  | tick | report | run | return_ => rfl
  | addTimer b cb when_ interval t queue _ halloc ht hsame => exact hnew b t _ halloc (by rw [ht]; rfl) hsame.heap
  | createTimer b cb when_ interval t halloc ht => exact hnew b t _ halloc (by rw [ht]; rfl) rfl
  | addTimerInLoop b t queued queue _ _ _ hsame => exact isAt_congr (congrFun hsame.heap timer)
  | cancelPending b t _ ht _ =>
    by_cases heq : timer = b
    . subst heq
      have hfree : ((s.queue.erased timer t).freed timer).heap timer = none := Function.update_self ..
      rw [isAt_of_none hfree, eq_comm, Bool.eq_false_iff, ne_eq, isAt_iff]
      rintro ⟨hx, t', ht', hsequence⟩
      rw [ht, Option.some.injEq] at ht'
      apply hcancel
      rw [ht', hsequence, hx]
    . exact isAt_congr (Function.update_of_ne heq ..)
  | cancelOther timerId => exact isAt_congr (congrFun (s.queue.canceling_eq timerId).2.2.1 timer)
  | handleRead f queue _ _ _ _ _ _ _ hexpiry => exact isAt_congr (congrFun hexpiry.heap timer)
  | reset => exact absurd rfl hreset

theorem canceling_without {timerId : TimerId} (hne : timerId ≠ x)
    : ((s.without x).queue.canceling timerId).cancelingTimers
          = ({ s with queue := s.queue.canceling timerId }.without x).queue.cancelingTimers
        ∧ ((s.without x).queue.canceling timerId).callingExpiredTimers
          = (s.queue.canceling timerId).callingExpiredTimers := by
  have hkey : toLex (timerId.timer, timerId.sequence) ≠ toLex (x.timer, x.sequence) := by
    intro heq
    simp only [EmbeddingLike.apply_eq_iff_eq, Prod.mk.injEq] at heq
    apply hne
    obtain ⟨timer, sequence⟩ := timerId
    obtain ⟨timer', sequence'⟩ := x
    simp only at heq
    rw [heq.1, heq.2]
  by_cases hcalling : s.queue.callingExpiredTimers = true
  . simp only [TimerLoop.without, TimerQueue.without, canceling, hcalling, if_true, and_true]
    apply SortedSet.ext
    intro key
    simp only [SortedSet.mem_insert, SortedSet.mem_erase]
    constructor
    . rintro (rfl | hmem)
      . exact ⟨.inl rfl, hkey⟩
      . exact ⟨.inr hmem.1, hmem.2⟩
    . rintro ⟨rfl | hmem, hne⟩
      . exact .inl rfl
      . exact .inr ⟨hmem, hne⟩
  . simp only [TimerLoop.without, TimerQueue.without, canceling, hcalling, Bool.false_eq_true, if_false, and_self]

/--
Apart from `reset`, what a step does to the other timers is what it does without the timer.
-/
theorem Inv.without_steps (h : s.Inv) (hissued : s.Issued x) (hsteps : Steps s a s')
    (hsteps' : Steps (s.without x) a o) (hvisible : s.visible x a = true) (hreset : a ≠ .reset)
    : o.unarmed = (s'.without x).unarmed := by
  have hcancel : a ≠ .cancel x := by
    rintro rfl
    simp [visible] at hvisible
  have hat := isAt_step hissued hsteps hreset hcancel
  have hinv := (h.of_steps hsteps).without x
  have hinv' := (h.without x).of_steps hsteps'
  cases hsteps with
  | tick =>
    cases hsteps'
    rfl
  | report | return_ => cases hvisible
  | addTimer timer cb when_ interval t queue _ halloc ht hsame =>
    cases hsteps' with
    | addTimer _ _ _ _ t' queue' _ _ ht' hsame' =>
      have hother := isAt_of_none (x := x) (allocates_iff.mp halloc).1
      have heq : t' = t := by
        rw [ht', ht]
        rfl
      refine unarmed_ext hinv hinv' rfl ?_ ?_ ?_ ?_ ?_ ?_ rfl rfl
      . rw [hsame'.heap, heq]
        exact (heap_without_update hsame.heap hat hother).symm
      . exact hsame'.numCreated.trans hsame.numCreated.symm
      . exact hsame'.callingExpiredTimers.trans hsame.callingExpiredTimers.symm
      . refine hsame'.cancelingTimers.trans ?_
        exact congrArg (SortedSet.erase · (toLex (x.timer, x.sequence))) hsame.cancelingTimers.symm
      . simp only [TimerLoop.without, hat]
      . simp only [TimerLoop.without, hat]
  | createTimer timer cb when_ interval t halloc ht =>
    cases hsteps' with
    | createTimer _ _ _ _ t' _ ht' =>
      have hother := isAt_of_none (x := x) (allocates_iff.mp halloc).1
      have heq : t' = t := by
        rw [ht', ht]
        rfl
      have hallocated : (s.queue.allocated timer t).isAt x = s.queue.isAt x := hat
      refine unarmed_ext hinv hinv' rfl ?_ rfl rfl rfl ?_ ?_ rfl rfl
      . rw [heq]
        exact (heap_without_update rfl hallocated hother).symm
      . simp only [TimerLoop.without, hallocated, List.filter_append, List.filter_cons, hother, Bool.not_false,
          if_true, List.filter_nil]
      . simp only [TimerLoop.without, hallocated]
  | addTimerInLoop timer t queued queue _ hqueued ht hsame =>
    have hother : s.queue.isAt x timer = false := by
      simpa [visible, hqueued] using hvisible
    have hqueued' : (s.without x).queued = timer :: queued.filter fun timer => !s.queue.isAt x timer := by
      simp only [TimerLoop.without, hqueued, List.filter_cons, hother, Bool.not_false, if_true]
    cases hsteps' with
    | addTimerInLoop timer' t' queued' queue' _ heq ht' hsame' =>
      rw [hqueued', List.cons.injEq] at heq
      obtain ⟨rfl, rfl⟩ := heq
      refine unarmed_ext hinv hinv' rfl ?_ ?_ ?_ ?_ ?_ ?_ rfl rfl
      . exact hsame'.heap.trans (heap_without_same hsame.heap).symm
      . exact hsame'.numCreated.trans hsame.numCreated.symm
      . exact hsame'.callingExpiredTimers.trans hsame.callingExpiredTimers.symm
      . refine hsame'.cancelingTimers.trans ?_
        exact congrArg (SortedSet.erase · (toLex (x.timer, x.sequence))) hsame.cancelingTimers.symm
      . simp only [TimerLoop.without, hat]
      . simp only [TimerLoop.without, hat]
  | cancelPending timer t _ ht hnotMem =>
    have hother : s.queue.isAt x timer = false := by
      rw [Bool.eq_false_iff, ne_eq, isAt_iff]
      rintro ⟨hx, t', ht', hsequence⟩
      rw [ht, Option.some.injEq] at ht'
      apply hcancel
      rw [ht', hsequence, hx]
    have hlive : (s.without x).queue.heap timer = some t := heap_without_eq_some.mpr ⟨ht, hother⟩
    have hat : ((s.queue.erased timer t).freed timer).isAt x = s.queue.isAt x := hat
    generalize hid : ({ timer := timer, sequence := t.sequence } : TimerId) = timerId at hsteps'
    cases hsteps' with
    | cancelPending timer' t' _ ht' _ =>
      obtain rfl := (TimerId.mk.inj hid).1
      refine unarmed_ext hinv hinv' rfl ?_ rfl rfl rfl ?_ ?_ rfl rfl
      . exact (heap_without_update rfl hat hother).symm
      . simp only [TimerLoop.without, hat]
      . simp only [TimerLoop.without, hat]
    | cancelOther _ _ hinactive =>
      refine absurd ?_ hinactive
      rw [← hid, (h.without x).owns.activeTimers]
      refine ⟨t, hlive, rfl, ?_⟩
      rw [batch_without]
      change timer ∉ _ ++ s.queued.filter _
      rw [← List.filter_append]
      exact fun hmem => hnotMem (List.mem_filter.mp hmem).1
  | cancelOther timerId _ hinactive =>
    have hne : timerId ≠ x := by
      simpa [visible] using hvisible
    obtain ⟨hcanceling, hcalling⟩ := canceling_without (s := s) hne
    have hat : (s.queue.canceling timerId).isAt x = s.queue.isAt x := hat
    have hkept := s.queue.canceling_eq timerId
    have hkept' := (s.without x).queue.canceling_eq timerId
    have hactive : ∀ key, key ∈ (s.without x).queue.activeTimers → key ∈ s.queue.activeTimers := by
      intro key hkey
      exact (SortedSet.mem_erase.mp hkey).1
    cases hsteps' with
    | cancelPending timer t' _ ht' hnotMem' =>
      refine absurd (hactive _ ?_) hinactive
      exact ((h.without x).owns.activeTimers _ _).mpr ⟨t', ht', rfl, hnotMem'⟩
    | cancelOther =>
      refine unarmed_ext hinv hinv' rfl ?_ ?_ hcalling hcanceling ?_ ?_ rfl rfl
      . exact hkept'.2.2.1.trans (heap_without_same hkept.2.2.1).symm
      . exact hkept'.2.2.2.trans hkept.2.2.2.symm
      . simp only [TimerLoop.without, hat]
      . simp only [TimerLoop.without, hat]
  | handleRead f queue _ hstart hnow htodo hrunning hcalling hempty hexpiry _ =>
    have hat : queue.isAt x = s.queue.isAt x := hat
    cases hsteps' with
    | handleRead f' queue' _ hstart' hnow' htodo' hrunning' hcalling' hempty' hexpiry' _ =>
      have hexpired : f'.expired = f.expired.filter fun it => !s.queue.isAt x (ofLex it).2 :=
        expired_without hexpiry hexpiry' (hnow'.trans hnow.symm)
      refine unarmed_ext hinv hinv' rfl ?_ ?_ (hcalling'.trans hcalling.symm) ?_ ?_ ?_ rfl rfl
      . exact hexpiry'.heap.trans (heap_without_same hexpiry.heap).symm
      . exact hexpiry'.numCreated.trans hexpiry.numCreated.symm
      . simp only [TimerLoop.without, TimerQueue.without, hempty, hempty']
        rfl
      . simp only [TimerLoop.without, hat]
      . obtain ⟨start, now, expired, todo, running⟩ := f
        obtain ⟨start', now', expired', todo', running'⟩ := f'
        simp only at hstart hnow htodo hstart' hnow' htodo' hexpired
        subst htodo htodo' hexpired
        simp only [TimerLoop.without, Option.map_some, hat, hstart, hstart', hnow, hnow']
  | run f when_ timer t todo hf hrunning htodo ht =>
    have hother : s.queue.isAt x timer = false := by
      simpa [visible, hf, htodo] using hvisible
    have hsequence : t.sequence ≠ x.sequence := by
      intro heq
      rw [Bool.eq_false_iff, ne_eq, isAt_iff] at hother
      exact hother ⟨hissued.addr timer t ht heq, t, ht, heq⟩
    have hframe : (s.without x).frame = some
        { f with
            expired := f.expired.filter fun it => !s.queue.isAt x (ofLex it).2
            todo := f.todo.filter fun it => !s.queue.isAt x (ofLex it).2 } := by
      simp only [TimerLoop.without, hf, Option.map_some]
    cases hsteps' with
    | run f' when_' timer' t' todo' hf' _ htodo' ht' =>
      rw [hframe, Option.some.injEq] at hf'
      subst hf'
      have hkept : (!s.queue.isAt x (ofLex (toLex (when_, timer))).2) = true := by
        rw [ofLex_toLex, hother]
        rfl
      dsimp only at htodo'
      rw [htodo, List.filter_cons, if_pos hkept, List.cons.injEq, EmbeddingLike.apply_eq_iff_eq, Prod.mk.injEq]
        at htodo'
      obtain ⟨⟨rfl, rfl⟩, rfl⟩ := htodo'
      have heq : t' = t := by
        have hlive := heap_without_eq_some.mp ht'
        rw [ht, Option.some.injEq] at hlive
        exact hlive.1.symm
      refine unarmed_ext hinv hinv' rfl rfl rfl rfl rfl rfl ?_ rfl ?_
      . simp only [TimerLoop.without, Option.map_some]
      . have hbne : (t.sequence != x.sequence) = true := bne_iff_ne.mpr hsequence
        simp only [heq, TimerLoop.without, List.filter_append, List.filter_cons, hbne, if_true, List.filter_nil]
  | reset => exact absurd rfl hreset

-- the other timers of a batch are renewed in the same way
theorem renewed_without {timer : Addr} {t : Timer φ} {now : Timestamp} (ht : s.queue.heap timer = some t)
    (hother : s.queue.isAt x timer = false)
    : (s.queue.without x).renewed now timer t = s.queue.renewed now timer t := by
  have hne : toLex (timer, t.sequence) ≠ toLex (x.timer, x.sequence) := by
    intro heq
    simp only [EmbeddingLike.apply_eq_iff_eq, Prod.mk.injEq] at heq
    rw [Bool.eq_false_iff, ne_eq, isAt_iff] at hother
    exact hother ⟨heq.1, t, ht, heq.2⟩
  have hkey : toLex (timer, t.sequence) ∈ (s.queue.without x).cancelingTimers
      ↔ toLex (timer, t.sequence) ∈ s.queue.cancelingTimers := by
    simp only [TimerQueue.without, SortedSet.mem_erase, and_iff_left_iff_imp]
    exact fun _ => hne
  unfold renewed
  simp only [hkey]

theorem heap_reset_without {f : HandleRead} {queue queue' : TimerQueue φ}
    (hrenewed : Renewed { s.queue with callingExpiredTimers := false } queue f.now f.expired)
    (hrenewed' : Renewed { s.queue.without x with callingExpiredTimers := false } queue' f.now
      (f.expired.filter fun it => !s.queue.isAt x (ofLex it).2))
    : queue'.heap = (queue.without x).heap := by
  funext timer
  have hbatch := hrenewed.batch timer
  have hothers := hrenewed.others timer
  have hbatch' := hrenewed'.batch timer
  have hothers' := hrenewed'.others timer
  have hsequence : ∀ t', queue.heap timer = some t' →
      ∃ t, s.queue.heap timer = some t ∧ t'.sequence = t.sequence := by
    intro t' ht'
    by_cases hmem : timer ∈ addrs f.expired
    . rw [hbatch hmem, Option.bind_eq_some_iff] at ht'
      obtain ⟨t, ht, hrenew⟩ := ht'
      unfold renewed at hrenew
      split at hrenew
      . rw [Option.some.injEq] at hrenew
        exact ⟨t, ht, hrenew ▸ t.sequence_restart _⟩
      . cases hrenew
    . rw [hothers hmem] at ht'
      exact ⟨t', ht', rfl⟩
  rw [addrs_filter f.expired fun timer => !s.queue.isAt x timer, List.mem_filter] at hbatch' hothers'
  cases hat : s.queue.isAt x timer with
  | true =>
    have hnone : (s.queue.without x).heap timer = none := by
      rw [heap_without, hat, if_pos rfl]
    have hleft : queue'.heap timer = none := by
      rw [hothers' (by simp [hat])]
      exact hnone
    rw [hleft, heap_without]
    split
    . rfl
    . next hnot =>
      cases ht' : queue.heap timer with
      | none => rfl
      | some t' =>
        obtain ⟨t, ht, heq⟩ := hsequence t' ht'
        obtain ⟨hx, t₀, ht₀, heq₀⟩ := isAt_iff.mp hat
        rw [ht, Option.some.injEq] at ht₀
        refine absurd (isAt_iff.mpr ⟨hx, t', ht', ?_⟩) hnot
        rw [heq, ht₀, heq₀]
  | false =>
    have hsame : (s.queue.without x).heap timer = s.queue.heap timer := by
      rw [heap_without, hat, if_neg Bool.false_ne_true]
    have hat' : queue.isAt x timer = false := by
      rw [Bool.eq_false_iff, ne_eq, isAt_iff]
      rintro ⟨hx, t', ht', heq'⟩
      obtain ⟨t, ht, heq⟩ := hsequence t' ht'
      rw [Bool.eq_false_iff, ne_eq, isAt_iff] at hat
      exact hat ⟨hx, t, ht, heq ▸ heq'⟩
    rw [heap_without, hat', if_neg Bool.false_ne_true]
    by_cases hmem : timer ∈ addrs f.expired
    . rw [hbatch hmem, hbatch' ⟨hmem, by simp [hat]⟩]
      dsimp only
      rw [hsame]
      cases ht : s.queue.heap timer with
      | none => rfl
      | some t => exact renewed_without ht hat
    . rw [hothers hmem, hothers' (fun h => hmem h.1)]
      exact hsame

theorem Inv.without_reset (h : s.Inv) (hsteps : Steps s .reset s') (hnext : s.next .reset = some s')
    (hsteps' : Steps (s.without x) .reset o) (hnext' : (s.without x).next .reset = some o)
    : o.unarmed = (s'.without x).unarmed := by
  have hinv := (h.of_steps hsteps).without x
  have hinv' := (h.without x).of_steps hsteps'
  have hcanceling := canceling_reset hnext
  have hcanceling' := canceling_reset hnext'
  cases hsteps with
  | reset f queue hf _ _ hrenewed howns =>
    have hframe : (s.without x).frame = some
        { f with
            expired := f.expired.filter fun it => !s.queue.isAt x (ofLex it).2
            todo := f.todo.filter fun it => !s.queue.isAt x (ofLex it).2 } := by
      simp only [TimerLoop.without, hf, Option.map_some]
    have hqueued : ∀ timer ∈ s.queued, queue.isAt x timer = s.queue.isAt x timer := by
      intro timer hmem
      have howns := h.owns.nodup
      rw [batch_of_some hf, List.nodup_append] at howns
      have hnotMem : timer ∉ addrs f.expired := fun hbatch => howns.2.2 timer hbatch timer hmem rfl
      exact isAt_congr (hrenewed.others timer hnotMem)
    cases hsteps' with
    | reset f' queue' hf' _ _ hrenewed' _ =>
      rw [hframe, Option.some.injEq] at hf'
      subst hf'
      refine unarmed_ext hinv hinv' rfl ?_ ?_ ?_ ?_ ?_ rfl rfl rfl
      . exact heap_reset_without hrenewed hrenewed'
      . exact hrenewed'.numCreated.trans hrenewed.numCreated.symm
      . exact hrenewed'.callingExpiredTimers.trans hrenewed.callingExpiredTimers.symm
      . refine hcanceling'.trans ?_
        exact congrArg (SortedSet.erase · (toLex (x.timer, x.sequence))) hcanceling.symm
      . apply List.filter_congr
        intro timer hmem
        rw [hqueued timer hmem]

/--
A step that is not hidden can also be taken without the timer, and leads to the same.
-/
theorem Inv.without_visible (h : s.Inv) (hissued : s.Issued x) (henabled : s.enabledAnyTime a = true)
    (hnext : s.next a = some s') (hvisible : s.visible x a = true)
    : ∃ o, (s.without x).next a = some o ∧ o.unarmed = (s'.without x).unarmed := by
  have hsteps := h.steps_of_next henabled hnext
  obtain ⟨henabled', o, hnext'⟩ := (h.without x).exists_next (offered_without henabled hnext hvisible)
  have hsteps' := (h.without x).steps_of_next henabled' hnext'
  refine ⟨o, hnext', ?_⟩
  cases a with
  | reset => exact h.without_reset hsteps hnext hsteps' hnext'
  | _ => exact h.without_steps hissued hsteps hsteps' hvisible (by simp)

theorem filter_isAt {l : List Addr} (h : ∀ timer ∈ l, s.queue.isAt x timer = false)
    : (l.filter fun timer => !s.queue.isAt x timer) = l := by
  apply List.filter_eq_self.mpr
  intro timer hmem
  rw [h timer hmem]
  rfl

-- a change of the queue alone that the other timers do not notice
theorem Inv.without_queue {queue : TimerQueue φ} (h : s.Inv) (h' : { s with queue := queue }.Inv)
    (htimerfd : queue.timerfd = s.queue.timerfd)
    (hcalling : queue.callingExpiredTimers = s.queue.callingExpiredTimers)
    (hcanceling : (queue.without x).cancelingTimers = (s.queue.without x).cancelingTimers)
    (hheap : (queue.without x).heap = (s.queue.without x).heap)
    (hnumCreated : queue.numCreated = s.queue.numCreated) (hsettimes : queue.settimes = s.queue.settimes)
    (howned : ∀ timer ∈ addrs s.batch ++ s.queued, queue.isAt x timer = s.queue.isAt x timer)
    : { s with queue := queue }.without x = s.without x := by
  have hqueued : (s.queued.filter fun timer => !queue.isAt x timer)
      = s.queued.filter fun timer => !s.queue.isAt x timer := by
    apply List.filter_congr
    intro timer hmem
    rw [howned timer (List.mem_append_right _ hmem)]
  have hframe : (s.frame.map fun f =>
        { f with
            expired := f.expired.filter fun it => !queue.isAt x (ofLex it).2
            todo := f.todo.filter fun it => !queue.isAt x (ofLex it).2 })
      = s.frame.map fun f =>
        { f with
            expired := f.expired.filter fun it => !s.queue.isAt x (ofLex it).2
            todo := f.todo.filter fun it => !s.queue.isAt x (ofLex it).2 } := by
    cases hf : s.frame with
    | none => rfl
    | some f =>
      have hsame : ∀ it ∈ f.expired, (!queue.isAt x (ofLex it).2) = !s.queue.isAt x (ofLex it).2 := by
        intro it hmem
        rw [howned]
        apply List.mem_append_left
        rw [batch_of_some hf]
        exact mem_addrs.mpr ⟨_, hmem⟩
      rw [Option.map_some, Option.map_some, List.filter_congr hsame,
        List.filter_congr fun it hmem => hsame it ((h.todo f hf).mem hmem)]
  have hsets := (h.without x).timers_eq (h'.without x) hheap
    (batch_congr (congrArg (Option.map fun f : HandleRead => { f with running := false }) hframe)) hqueued
  have hqueue : queue.without x = s.queue.without x :=
    TimerQueue.ext htimerfd hsets.1 hsets.2 hcalling hcanceling hheap hnumCreated hsettimes
  simp only [TimerLoop.without, hqueue, hqueued, hframe]

theorem Inv.without_cancel (h : s.Inv) (hsteps : Steps s (.cancel x) s') : s'.without x = s.without x := by
  have hinv' := h.of_steps hsteps
  generalize ha : (Label.cancel x : Label φ) = a at hsteps
  cases hsteps with
  | cancelPending timer t _ ht hnotMem =>
    cases ha
    have hdeleted : ∀ b, ((s.queue.erased timer t).freed timer).isAt ⟨timer, t.sequence⟩ b = false := by
      intro b
      rw [Bool.eq_false_iff, ne_eq, isAt_iff]
      rintro ⟨rfl, t', ht', _⟩
      have hnone : ((s.queue.erased b t).freed b).heap b = none := Function.update_self ..
      rw [hnone] at ht'
      cases ht'
    have hother : ∀ b, b ≠ timer → s.queue.isAt ⟨timer, t.sequence⟩ b = false := by
      intro b hne
      rw [Bool.eq_false_iff, ne_eq, isAt_iff]
      exact fun hat => hne hat.1
    refine h.without_queue hinv' rfl rfl rfl ?_ rfl rfl ?_
    . funext b
      rw [heap_without, hdeleted, if_neg Bool.false_ne_true, heap_without]
      by_cases heq : b = timer
      . subst heq
        rw [if_pos (isAt_iff.mpr ⟨rfl, t, ht, rfl⟩)]
        exact Function.update_self ..
      . rw [hother b heq, if_neg Bool.false_ne_true]
        exact Function.update_of_ne heq ..
    . intro b hmem
      rw [hdeleted, hother]
      rintro rfl
      exact hnotMem hmem
  | cancelOther timerId _ hinactive =>
    cases ha
    have hkept := s.queue.canceling_eq x
    have hcanceling : (s.queue.canceling x).timerfd = s.queue.timerfd
        ∧ (s.queue.canceling x).callingExpiredTimers = s.queue.callingExpiredTimers
        ∧ ((s.queue.canceling x).without x).cancelingTimers = (s.queue.without x).cancelingTimers
        ∧ (s.queue.canceling x).settimes = s.queue.settimes := by
      unfold canceling
      split
      . refine ⟨rfl, rfl, ?_, rfl⟩
        apply SortedSet.ext
        intro key
        simp only [TimerQueue.without, SortedSet.mem_erase, SortedSet.mem_insert]
        tauto
      . exact ⟨rfl, rfl, rfl, rfl⟩
    refine h.without_queue hinv' hcanceling.1 hcanceling.2.1 hcanceling.2.2.1 ?_ hkept.2.2.2 hcanceling.2.2.2 ?_
    . exact heap_without_same hkept.2.2.1
    . intro b _
      exact isAt_congr (congrFun hkept.2.2.1 b)
  | _ => cases ha

theorem Inv.without_hidden (h : s.Inv) (hsteps : Steps s a s') (hhidden : s.visible x a = false)
    : (s'.without x).unarmed = (s.without x).unarmed := by
  have hinv := h.without x
  have hinv' := (h.of_steps hsteps).without x
  cases hsteps with
  | tick | addTimer | createTimer | handleRead | reset => cases hhidden
  | report => rfl
  | return_ f hf =>
    refine unarmed_ext hinv hinv' rfl rfl rfl rfl rfl rfl ?_ rfl rfl
    simp only [TimerLoop.without, hf, Option.map_some]
  | cancelPending timer t hcode ht hnotMem =>
    have heq : ({ timer := timer, sequence := t.sequence } : TimerId) = x := by
      simpa [visible] using hhidden
    subst heq
    rw [h.without_cancel (.cancelPending timer t hcode ht hnotMem)]
  | cancelOther timerId hcode hinactive =>
    have heq : timerId = x := by
      simpa [visible] using hhidden
    subst heq
    rw [h.without_cancel (.cancelOther timerId hcode hinactive)]
  | addTimerInLoop timer t queued queue _ hqueued ht hsame =>
    have hx : s.queue.isAt x timer = true := by
      simpa [visible, hqueued] using hhidden
    have hat : queue.isAt x = s.queue.isAt x := by
      funext b
      exact isAt_congr (congrFun hsame.heap b)
    refine unarmed_ext hinv hinv' rfl ?_ hsame.numCreated hsame.callingExpiredTimers ?_ ?_ ?_ rfl rfl
    . exact heap_without_same hsame.heap
    . exact congrArg (SortedSet.erase · (toLex (x.timer, x.sequence))) hsame.cancelingTimers
    . simp only [TimerLoop.without, hat, hqueued, List.filter_cons, hx, Bool.not_true, Bool.false_eq_true, if_false]
    . simp only [TimerLoop.without, hat]
  | run f when_ timer t todo hf hrunning htodo ht =>
    have hx : s.queue.isAt x timer = true := by
      simpa [visible, hf, htodo] using hhidden
    obtain ⟨_, t', ht', hsequence⟩ := isAt_iff.mp hx
    rw [ht, Option.some.injEq] at ht'
    rw [← ht'] at hsequence
    refine unarmed_ext hinv hinv' rfl rfl rfl rfl rfl rfl ?_ rfl ?_
    . have hdropped : (f.todo.filter fun it => !s.queue.isAt x (ofLex it).2)
          = todo.filter fun it => !s.queue.isAt x (ofLex it).2 := by
        rw [htodo, List.filter_cons, if_neg]
        rw [ofLex_toLex, hx]
        exact Bool.false_ne_true
      simp only [TimerLoop.without, hf, Option.map_some, hdropped]
    . have hbne : (t.sequence != x.sequence) = false := by
        rw [hsequence]
        exact bne_self_eq_false _
      simp only [TimerLoop.without, List.filter_append, List.filter_cons, hbne, Bool.false_eq_true, if_false,
        List.filter_nil, List.append_nil]

end TimerLoop

end MyMuduo
