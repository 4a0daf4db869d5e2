import MyMuduo.Timer.Without

/-!
This module contains that a timer loop takes the same steps when it forgets a mark in `cancelingTimers_` that
names no live timer, and also when the timerfd is forgotten.
-/

namespace MyMuduo

universe u

variable {φ : Type u}

namespace TimerQueue

variable {q q' : TimerQueue φ} {x : TimerId} {timerfd : Bool}

/--
Without the mark of a timer, and without the timerfd if `timerfd` says so.
-/
def forget (q : TimerQueue φ) (timerfd : Bool) (x : TimerId) : TimerQueue φ :=
  { q with
      timerfd := if timerfd then none else q.timerfd
      settimes := if timerfd then [] else q.settimes
      cancelingTimers := q.cancelingTimers.erase (toLex (x.timer, x.sequence)) }

-- no live timer has the id
def Deleted (q : TimerQueue φ) (x : TimerId) : Prop :=
  ∀ timer, q.isAt x timer = false

theorem Deleted.sequence_ne (h : q.Deleted x) {timer : Addr} {t : Timer φ} (ht : q.heap timer = some t)
    : (toLex (timer, t.sequence) : ActiveTimer) ≠ toLex (x.timer, x.sequence) := by
  intro heq
  simp only [EmbeddingLike.apply_eq_iff_eq, Prod.mk.injEq] at heq
  have hnot := h timer
  rw [Bool.eq_false_iff, ne_eq, isAt_iff] at hnot
  exact hnot ⟨heq.1, t, ht, heq.2⟩

theorem forget_forget (q : TimerQueue φ) : (q.forget timerfd x).forget timerfd x = q.forget timerfd x := by
  refine TimerQueue.ext ?_ rfl rfl rfl ?_ rfl rfl ?_
  . simp only [forget]
    split <;> rfl
  . exact SortedSet.erase_erase _ _
  . simp only [forget]
    split <;> rfl

theorem forget_settime (value : Timespec) (clock : Int)
    : ((q.forget timerfd x).settime value clock).forget timerfd x = (q.settime value clock).forget timerfd x := by
  refine TimerQueue.ext rfl rfl rfl rfl ?_ rfl rfl ?_
  . exact SortedSet.erase_erase _ _
  . simp only [forget, settime]
    split <;> rfl

theorem insert_forget (timer : Addr)
    : (q.forget timerfd x).insert timer = (q.insert timer).map fun r => (r.1.forget timerfd x, r.2) := by
  simp only [insert, Option.map_map]
  rfl

theorem addTimerInLoop_forget (timer : Addr) (clock : Int)
    : ((q.forget timerfd x).addTimerInLoop timer clock).map (·.forget timerfd x)
        = (q.addTimerInLoop timer clock).map (·.forget timerfd x) := by
  simp only [addTimerInLoop, insert_forget]
  cases q.insert timer with
  | none => rfl
  | some r =>
    obtain ⟨q₁, earliestChanged⟩ := r
    simp only [Option.map_some, Option.bind_some]
    split
    . have hheap : (q₁.forget timerfd x).heap = q₁.heap := rfl
      simp only [hheap, Option.map_map]
      apply Option.map_congr
      intro t _
      exact forget_settime _ _
    . simp only [Option.map_some, forget_forget]

theorem addTimer_forget (timer : Addr) (cb : φ) (when_ : Timestamp) (interval : Rat) (clock : Int)
    : ((q.forget timerfd x).addTimer timer cb when_ interval clock).map (fun r => r.1.forget timerfd x)
        = (q.addTimer timer cb when_ interval clock).map fun r => r.1.forget timerfd x := by
  let t := Timer.new cb when_ interval q.numCreated
  have hadd : (((q.allocated timer t).forget timerfd x).addTimerInLoop timer clock).map (·.forget timerfd x)
      = ((q.allocated timer t).addTimerInLoop timer clock).map (·.forget timerfd x) :=
    addTimerInLoop_forget timer clock
  change ((((q.allocated timer t).forget timerfd x).addTimerInLoop timer clock).bind _).map _
    = (((q.allocated timer t).addTimerInLoop timer clock).bind _).map _
  cases hleft : ((q.allocated timer t).forget timerfd x).addTimerInLoop timer clock with
  | none =>
    rw [hleft, Option.map_none, eq_comm, Option.map_eq_none_iff] at hadd
    simp only [hadd, Option.bind_none, Option.map_none]
  | some q₁ =>
    rw [hleft, Option.map_some, eq_comm, Option.map_eq_some_iff] at hadd
    obtain ⟨q₂, hright, heq⟩ := hadd
    have hheap : (q₂.forget timerfd x).heap = (q₁.forget timerfd x).heap := by
      rw [heq]
    change q₂.heap = q₁.heap at hheap
    rw [hright, Option.bind_some, Option.bind_some, hheap]
    cases q₁.heap timer with
    | none => rfl
    | some t => exact congrArg some heq.symm

theorem cancelInLoop_forget (timerId : TimerId)
    : ((q.forget timerfd x).cancelInLoop timerId).map (·.forget timerfd x)
        = (q.cancelInLoop timerId).map (·.forget timerfd x) := by
  have hactive : (q.forget timerfd x).activeTimers = q.activeTimers := rfl
  have hheap : (q.forget timerfd x).heap = q.heap := rfl
  have hcalling : (q.forget timerfd x).callingExpiredTimers = q.callingExpiredTimers := rfl
  simp only [cancelInLoop_eq, hactive, hheap, hcalling]
  split
  . simp only [Option.map_map]
    apply Option.map_congr
    intro t _
    refine TimerQueue.ext ?_ rfl rfl rfl ?_ rfl rfl ?_
    . simp only [Function.comp_apply, forget, freed]
      split <;> rfl
    . exact SortedSet.erase_erase _ _
    . simp only [Function.comp_apply, forget, freed]
      split <;> rfl
  . split
    . refine congrArg some (TimerQueue.ext ?_ rfl rfl rfl ?_ rfl rfl ?_)
      . simp only [forget]
        split <;> rfl
      . apply SortedSet.ext
        intro key
        simp only [forget, SortedSet.mem_erase, SortedSet.mem_insert]
        tauto
      . simp only [forget]
        split <;> rfl
    . exact congrArg some (forget_forget q)

theorem eraseActive_forget (batch : List Entry)
    : (q.forget timerfd x).eraseActive batch = (q.eraseActive batch).map (·.forget timerfd x) := by
  induction batch generalizing q with
  | nil => rfl
  | cons it batch ih =>
    have hheap : (q.forget timerfd x).heap = q.heap := rfl
    simp only [eraseActive, hheap]
    cases q.heap (ofLex it).2 with
    | none => rfl
    | some t =>
      exact ih (q := { q with activeTimers := q.activeTimers.erase (toLex ((ofLex it).2, t.sequence)) })

theorem readTimerfd_forget (clock : Int)
    : (q.forget timerfd x).readTimerfd clock = (q.readTimerfd clock).forget timerfd x := by
  have hfd : (q.forget timerfd x).timerfd = if timerfd then none else q.timerfd := rfl
  unfold readTimerfd
  rw [hfd]
  cases q.timerfd with
  | none =>
    simp only [ite_self]
  | some expiry =>
    cases timerfd with
    | true =>
      simp only [if_true]
      split
      . rfl
      . rfl
    | false =>
      simp only [Bool.false_eq_true, if_false]
      split
      . rfl
      . rfl

theorem getExpired_forget (now : Timestamp)
    : (q.forget timerfd x).getExpired now = (q.getExpired now).map fun r => (r.1.forget timerfd x, r.2) := by
  have hdropped : { q.forget timerfd x with timers := (q.forget timerfd x).timers.dropBelow (toLex (now, UINTPTR_MAX)) }
      = { q with timers := q.timers.dropBelow (toLex (now, UINTPTR_MAX)) }.forget timerfd x := rfl
  have htimers : (q.forget timerfd x).timers = q.timers := rfl
  unfold getExpired
  dsimp only
  rw [hdropped, eraseActive_forget, htimers, Option.map_map, Option.map_map]
  rfl

theorem Deleted.updated (h : q.Deleted x) {timer : Addr} {t t' : Timer φ} (ht : q.heap timer = some t)
    (hsequence : t'.sequence = t.sequence) (hheap : q'.heap = Function.update q.heap timer (some t'))
    : q'.Deleted x := by
  intro b
  by_cases heq : b = timer
  . subst heq
    rw [Bool.eq_false_iff, ne_eq, isAt_iff]
    rintro ⟨hx, t₀, ht₀, hsequence₀⟩
    rw [hheap, Function.update_self, Option.some.injEq] at ht₀
    have hnot := h b
    rw [Bool.eq_false_iff, ne_eq, isAt_iff] at hnot
    refine hnot ⟨hx, t, ht, ?_⟩
    rw [← hsequence, ht₀, hsequence₀]
  . rw [isAt_congr (q := q)]
    . exact h b
    . rw [hheap, Function.update_of_ne heq]

theorem Deleted.freed (h : q.Deleted x) (timer : Addr) : (q.freed timer).Deleted x := by
  intro b
  by_cases heq : b = timer
  . exact isAt_of_none (heq ▸ Function.update_self ..)
  . rw [isAt_congr (q := q)]
    . exact h b
    . exact Function.update_of_ne heq ..

theorem resetEntries_forget {now : Timestamp} {expired : List Entry} (h : q.Deleted x)
    : (q.forget timerfd x).resetEntries now expired
        = (q.resetEntries now expired).map (·.forget timerfd x) := by
  induction expired generalizing q with
  | nil => rfl
  | cons it expired ih =>
    have hheap : (q.forget timerfd x).heap = q.heap := rfl
    simp only [resetEntries_cons, hheap]
    cases ht : q.heap (ofLex it).2 with
    | none => rfl
    | some t =>
      have hkey : toLex ((ofLex it).2, t.sequence) ∈ (q.forget timerfd x).cancelingTimers
          ↔ toLex ((ofLex it).2, t.sequence) ∈ q.cancelingTimers := by
        simp only [forget, SortedSet.mem_erase, and_iff_left_iff_imp]
        exact fun _ => h.sequence_ne ht
      simp only [Option.bind_some, hkey]
      split
      . have hrestarted : Function.update q.heap (ofLex it).2 (some (t.restart now)) (ofLex it).2 =
            some (t.restart now) := Function.update_self ..
        have hdeleted : ({ q with heap := Function.update q.heap (ofLex it).2 (some (t.restart now)) }.inserted
            (ofLex it).2 (t.restart now)).Deleted x :=
          h.updated ht (t.sequence_restart now) rfl
        have hrec := ih hdeleted
        have hupdated : { q.forget timerfd x with heap := Function.update q.heap (ofLex it).2 (some (t.restart now)) }
            = { q with heap := Function.update q.heap (ofLex it).2 (some (t.restart now)) }.forget timerfd x := rfl
        obtain ⟨_, heq⟩ := insert_eq_some
          (q := { q with heap := Function.update q.heap (ofLex it).2 (some (t.restart now)) }) hrestarted
        rw [hupdated, insert_forget, heq]
        exact hrec
      . exact ih (h.freed _)

theorem reset_forget {now : Timestamp} {expired : List Entry} (h : q.Deleted x) (clock : Int)
    : ((q.forget timerfd x).reset expired now clock).map (·.forget timerfd x)
        = (q.reset expired now clock).map (·.forget timerfd x) := by
  simp only [reset, resetEntries_forget h]
  cases q.resetEntries now expired with
  | none => rfl
  | some q₁ =>
    have htimers : (q₁.forget timerfd x).timers = q₁.timers := rfl
    have hheap : (q₁.forget timerfd x).heap = q₁.heap := rfl
    simp only [Option.map_some, Option.bind_some, htimers, hheap, Option.map_map]
    apply Option.map_congr
    intro nextExpire _
    simp only [Function.comp_apply]
    split
    . exact forget_settime _ _
    . exact forget_forget q₁

end TimerQueue

attribute [ext] TimerLoop

namespace TimerLoop

open TimerQueue

variable {s s' : TimerLoop φ} {a : Label φ} {x : TimerId} {timerfd : Bool}

-- with the timerfd go the report of its expiry and whether a callback runs
def forget (s : TimerLoop φ) (timerfd : Bool) (x : TimerId) : TimerLoop φ :=
  { s with
      queue := s.queue.forget timerfd x
      reported := !timerfd && s.reported
      frame := s.frame.map fun f => { f with running := !timerfd && f.running } }

theorem forget_forget (s : TimerLoop φ) : (s.forget timerfd x).forget timerfd x = s.forget timerfd x := by
  refine TimerLoop.ext rfl (TimerQueue.forget_forget _) rfl ?_ ?_ rfl rfl
  . simp only [forget, ← Bool.and_assoc, Bool.and_self]
  . simp only [forget, Option.map_map, Function.comp_def, ← Bool.and_assoc, Bool.and_self]

theorem map_congr_of_map {α β γ : Type u} {o o' : Option α} {f : α → β} {g g' : α → γ}
    (h : o.map f = o'.map f) (hg : ∀ y y', f y = f y' → g y = g' y') : o.map g = o'.map g' := by
  cases o with
  | none =>
    rw [Option.map_none, eq_comm, Option.map_eq_none_iff] at h
    simp only [h, Option.map_none]
  | some y =>
    rw [Option.map_some, eq_comm, Option.map_eq_some_iff] at h
    obtain ⟨y', rfl, heq⟩ := h
    exact congrArg some (hg y y' heq.symm)

theorem next_forget (h : s.queue.Deleted x)
    : ((s.forget timerfd x).next a).map (·.forget timerfd x) = (s.next a).map (·.forget timerfd x) := by
  have hreported : (!timerfd && (!timerfd && s.reported)) = (!timerfd && s.reported) := by
    rw [← Bool.and_assoc, Bool.and_self]
  have hframe : ((s.forget timerfd x).frame.map fun f => { f with running := !timerfd && f.running })
      = s.frame.map fun f => { f with running := !timerfd && f.running } :=
    congrArg TimerLoop.frame (@forget_forget φ x timerfd s)
  cases a with
  | tick microseconds =>
    refine congrArg some (TimerLoop.ext rfl (TimerQueue.forget_forget _) rfl hreported hframe rfl rfl)
  | report =>
    refine congrArg some (TimerLoop.ext rfl (TimerQueue.forget_forget _) rfl rfl hframe rfl rfl)
  | addTimer timer cb when_ interval =>
    simp only [next, Option.map_map]
    refine map_congr_of_map (addTimer_forget timer cb when_ interval s.clock) ?_
    intro r r' hr
    exact TimerLoop.ext rfl hr rfl hreported hframe rfl rfl
  | createTimer timer cb when_ interval =>
    refine congrArg some (TimerLoop.ext rfl ?_ rfl hreported hframe rfl rfl)
    exact TimerQueue.forget_forget (s.queue.allocated timer _)
  | addTimerInLoop =>
    have hqueued : (s.forget timerfd x).queued = s.queued := rfl
    simp only [next, hqueued]
    cases s.queued with
    | nil => rfl
    | cons timer queued =>
      simp only [Option.map_map]
      refine map_congr_of_map (addTimerInLoop_forget timer s.clock) ?_
      intro q q' hq
      exact TimerLoop.ext rfl hq rfl hreported hframe rfl rfl
  | cancel timerId =>
    simp only [next, Option.map_map]
    refine map_congr_of_map (cancelInLoop_forget timerId) ?_
    intro q q' hq
    exact TimerLoop.ext rfl hq rfl hreported hframe rfl rfl
  | handleRead =>
    have hqueue : (s.forget timerfd x).queue = s.queue.forget timerfd x := rfl
    have hclock : (s.forget timerfd x).clock = s.clock := rfl
    simp only [next, TimerLoop.handleRead, hqueue, hclock, readTimerfd_forget, getExpired_forget, Option.map_map]
    apply Option.map_congr
    intro r _
    refine TimerLoop.ext rfl (TimerQueue.ext ?_ rfl rfl rfl rfl rfl rfl ?_) rfl rfl rfl rfl rfl
    . simp only [Function.comp_apply, forget, TimerQueue.forget]
      split <;> rfl
    . simp only [Function.comp_apply, forget, TimerQueue.forget]
      split <;> rfl
  | run =>
    cases hf : s.frame with
    | none => simp only [next, forget, hf, Option.map_none, Option.bind_none]
    | some f =>
      simp only [next, forget, hf, Option.map_some, Option.bind_some, TimerLoop.run]
      cases f.todo with
      | nil => rfl
      | cons it todo =>
        simp only [Option.map_map]
        apply Option.map_congr
        intro t _
        exact TimerLoop.ext rfl (TimerQueue.forget_forget _) rfl hreported rfl rfl rfl
  | return_ =>
    cases hf : s.frame with
    | none => simp only [next, forget, hf, Option.map_none]
    | some f =>
      simp only [next, forget, hf, Option.map_some]
      exact congrArg some (TimerLoop.ext rfl (TimerQueue.forget_forget _) rfl hreported rfl rfl rfl)
  | reset =>
    cases hf : s.frame with
    | none => simp only [next, forget, hf, Option.map_none, Option.bind_none]
    | some f =>
      have hdeleted : { s.queue with callingExpiredTimers := false }.Deleted x := h
      simp only [next, forget, hf, Option.map_some, Option.bind_some, TimerLoop.reset, Option.map_map]
      refine map_congr_of_map (reset_forget hdeleted s.clock) ?_
      intro q q' hq
      exact TimerLoop.ext rfl hq rfl hreported rfl rfl rfl

end TimerLoop

end MyMuduo
