import MyMuduo.Timer.Basic

/-!
This module contains what each operation of a timer queue does, apart from the timerfd.
-/

namespace MyMuduo

namespace TimerQueue

universe u

variable {φ : Type u}

/--
`q'` differs from `q` in nothing but the timerfd.
-/
structure SameTimers (q q' : TimerQueue φ) : Prop where
  timers : q'.timers = q.timers
  activeTimers : q'.activeTimers = q.activeTimers
  callingExpiredTimers : q'.callingExpiredTimers = q.callingExpiredTimers
  cancelingTimers : q'.cancelingTimers = q.cancelingTimers
  heap : q'.heap = q.heap
  numCreated : q'.numCreated = q.numCreated

theorem SameTimers.refl (q : TimerQueue φ) : SameTimers q q := by
  constructor <;> rfl

theorem SameTimers.resetTimerfd (q : TimerQueue φ) (expiration : Timestamp) (clock : Int)
    : SameTimers q (q.resetTimerfd expiration clock) := by
  constructor <;> rfl

theorem SameTimers.readTimerfd (q : TimerQueue φ) (clock : Int)
    : SameTimers q (q.readTimerfd clock) := by
  unfold TimerQueue.readTimerfd
  split
  . split
    . constructor <;> rfl
    . exact .refl q
  . exact .refl q

-- both sets with the timer `t` at the address `timer`
def inserted (q : TimerQueue φ) (timer : Addr) (t : Timer φ) : TimerQueue φ :=
  { q with
      timers := q.timers.insert (toLex (t.expiration, timer))
      activeTimers := q.activeTimers.insert (toLex (timer, t.sequence)) }

theorem insert_eq_some {q : TimerQueue φ} {timer : Addr} {t : Timer φ} (h : q.heap timer = some t)
    : ∃ earliestChanged, q.insert timer = some (q.inserted timer t, earliestChanged) := by
  simp only [insert, h, Option.map_some]
  exact ⟨_, rfl⟩

theorem addTimerInLoop_eq_some {q : TimerQueue φ} {timer : Addr} {t : Timer φ}
    (h : q.heap timer = some t) (clock : Int)
    : ∃ q', q.addTimerInLoop timer clock = some q' ∧ SameTimers (q.inserted timer t) q' := by
  obtain ⟨earliestChanged, hinsert⟩ := insert_eq_some h
  have hheap : (q.inserted timer t).heap timer = some t := h
  simp only [addTimerInLoop, hinsert, Option.bind_some]
  split
  . rw [hheap]
    exact ⟨_, rfl, .resetTimerfd _ _ _⟩
  . exact ⟨_, rfl, .refl _⟩

-- the queue after `new Timer`
def allocated (q : TimerQueue φ) (timer : Addr) (t : Timer φ) : TimerQueue φ :=
  { q with
      heap := Function.update q.heap timer (some t)
      numCreated := q.numCreated + 1 }

theorem addTimer_eq_some (q : TimerQueue φ) (timer : Addr) (cb : φ) (when_ : Timestamp)
    (interval : Rat) (clock : Int)
    : let t := Timer.new cb when_ interval q.numCreated
      ∃ q', q.addTimer timer cb when_ interval clock = some (q', ⟨timer, t.sequence⟩)
        ∧ SameTimers ((q.allocated timer t).inserted timer t) q' := by
  intro t
  have hheap : (q.allocated timer t).heap timer = some t := Function.update_self ..
  obtain ⟨q', hadd, hsame⟩ := addTimerInLoop_eq_some hheap clock
  have hheap' : q'.heap timer = some t := by
    rw [hsame.heap]
    exact hheap
  refine ⟨q', ?_, hsame⟩
  change ((q.allocated timer t).addTimerInLoop timer clock).bind _ = _
  simp [hadd, hheap']

theorem delete_eq_some {q : TimerQueue φ} {timer : Addr} {t : Timer φ} (h : q.heap timer = some t)
    : q.delete timer = some (q.freed timer) := by
  rw [delete, h, Option.map_some]

-- the sets hold a timer under the sequence number that it has, so the branch reads one that is alive
theorem cancelInLoop_eq (q : TimerQueue φ) (timerId : TimerId)
    : q.cancelInLoop timerId =
        if toLex (timerId.timer, timerId.sequence) ∈ q.activeTimers then
          (q.heap timerId.timer).map fun t =>
            { q.freed timerId.timer with
                timers := q.timers.erase (toLex (t.expiration, timerId.timer))
                activeTimers := q.activeTimers.erase (toLex (timerId.timer, timerId.sequence)) }
        else if q.callingExpiredTimers then
          some { q with
            cancelingTimers := q.cancelingTimers.insert (toLex (timerId.timer, timerId.sequence)) }
        else
          some q := by
  unfold cancelInLoop
  dsimp only
  split
  . cases ht : q.heap timerId.timer with
    | none => rfl
    | some t =>
      have hdelete := delete_eq_some
        (q := { q with timers := q.timers.erase (toLex (t.expiration, timerId.timer)) }) ht
      rw [Option.bind_some, hdelete]
      rfl
  . rfl

theorem resetEntries_cons (q : TimerQueue φ) (now : Timestamp) (it : Entry) (expired : List Entry)
    : q.resetEntries now (it :: expired) =
        (q.heap (ofLex it).2).bind fun t =>
          if t.repeat_ && toLex ((ofLex it).2, t.sequence) ∉ q.cancelingTimers then
            ({ q with heap := Function.update q.heap (ofLex it).2 (some (t.restart now)) }.insert
              (ofLex it).2).bind fun (q, _) => q.resetEntries now expired
          else
            (q.freed (ofLex it).2).resetEntries now expired := by
  cases ht : q.heap (ofLex it).2 with
  | none =>
    rw [resetEntries, ht]
    rfl
  | some t =>
    rw [resetEntries, ht, Option.bind_some, Option.bind_some, delete_eq_some ht, Option.bind_some]

theorem timerfd_resetTimerfd (q : TimerQueue φ) (expiration : Timestamp) (clock : Int)
    : (q.resetTimerfd expiration clock).timerfd =
        some (clock + max (expiration - Timestamp.now clock) 100) := by
  have hclamp : ∀ x : Int, (if x < 100 then 100 else x) = max x 100 := by
    omega
  have hsum : ∀ x : Int, clock + x.tdiv 1000000 * 1000000 + x.tmod 1000000 * 1000 / 1000 = clock + x := by
    intro x
    have hx := Int.mul_tdiv_add_tmod x 1000000
    omega
  simp only [resetTimerfd, settime, howMuchTimeFromNow, hclamp]
  exact congrArg some (hsum _)

end TimerQueue

end MyMuduo
