import MyMuduo.EventLoop.Invariant
import MyMuduo.Timer.Lemmas

/-!
This module contains what holds of a loop in every interleaving: functors are executed once and in
the order in which they were queued, a queued functor never waits for the poll to time out, and no
timed callback can be scheduled.
-/

namespace MyMuduo

namespace EventLoop

variable {φ : Type}

namespace Threads

variable {τ : Type} [DecidableEq τ]

theorem functors_fifo {s : Threads φ τ} (h : (system φ τ).Reachable s)
    : s.executed ++ s.loop.functors ++ s.loop.pendingFunctors = s.queued :=
  (inv_of_reachable h).order

-- two functors of another thread are taken as a batch, and the first of them queues a third one
def reentrantPush : List (Label Nat Unit) :=
  [.enter, .push (.other ()) 7, .clearQuit, .wakeup (.other ()), .push (.other ()) 8, .test, .poll,
    .pollReturn [1], .dispatch, .startCalling, .swap, .runFunctor, .push .loop 9]

theorem functors_fifo_reentrantPush
    : ∃ s, (system Nat Unit).run (initial (constructed Nat)) reentrantPush = some s
        ∧ s.executed ++ s.loop.functors ++ s.loop.pendingFunctors = s.queued
        ∧ (s.executed, s.loop.functors, s.loop.pendingFunctors) = ([7], [8], [9]) := by
  have h : (system Nat Unit).run (initial (constructed Nat)) reentrantPush = some _ := rfl
  exact ⟨_, h, functors_fifo ((reachable_initial new_constructed).run h), rfl⟩

def service (s : Threads φ τ) : Fifo φ where
  arrived := s.queued
  served := s.executed

-- seen from outside, the queue of a loop is a first-in first-out service
theorem refines_fifo : (system φ τ).Refines (Fifo.system φ) service where
  init := by
    intro s hinit
    exact ⟨hinit.2.2.2.1, hinit.2.2.2.2⟩
  step := by
    intro s a s' hs hstep
    have horder := (inv_of_reachable hs).order
    obtain ⟨_, hnext⟩ := LTS.guarded_step.mp hstep
    rcases next_history hnext with hsame | ⟨cb, hqueued, hexecuted⟩ | ⟨functor, rest, hfunctors, hrun⟩
    . left
      rw [service, hsame.1, hsame.2]
      rfl
    . right
      refine ⟨⟨[cb], 0⟩, ?_⟩
      have hserve : (service s).served ++ [] ++ (s.loop.functors ++ s.loop.pendingFunctors ++ [cb]) =
          (service s).arrived ++ [cb] := by
        rw [service, ← horder]
        simp
      rw [show service s' = ⟨s.queued ++ [cb], s.executed ++ []⟩ by simp [service, hqueued, hexecuted]]
      exact Fifo.step_serve hserve
    . right
      refine ⟨⟨[], 1⟩, ?_⟩
      have hserve : (service s).served ++ [functor] ++ (rest ++ s.loop.pendingFunctors) =
          (service s).arrived ++ [] := by
        rw [service, ← horder, hfunctors]
        simp
      rw [show service s' = ⟨s.queued ++ [], s.executed ++ [functor]⟩ by simp [service, hrun.1, hrun.2]]
      exact Fifo.step_serve hserve

theorem no_lost_wakeup {s : Threads φ τ} (h : (system φ τ).Reachable s)
    (hpc : s.pc = .aboutToPoll ∨ s.pc = .polling)
    (hfresh : s.stale < s.loop.pendingFunctors.length)
    : 0 < s.loop.wakeupFd ∨ ∃ t, s.callers (.other t) = .pushed := by
  have hinv := inv_of_reachable h
  have hswapped : s.pc.swapped = true := by
    cases hpc with
    | inl hpc => simp [hpc, LoopPc.swapped]
    | inr hpc => simp [hpc, LoopPc.swapped]
  apply (hinv.fresh hswapped hfresh).imp_right
  intro hpushed
  obtain ⟨t, ht⟩ := hpushed
  cases t with
  | other t => exact ⟨t, ht⟩
  | loop =>
    -- the loop thread does not poll in the middle of a call of its own
    have huser := hinv.caller (by simp [ht])
    cases hpc with
    | inl hpc => simp [hpc, LoopPc.runsUserCode] at huser
    | inr hpc => simp [hpc, LoopPc.runsUserCode] at huser

-- the wakeup of a first push is drained, then a second one comes after the swap
def pushBehindSwap : List (Label Nat Unit) :=
  [.enter, .clearQuit, .test, .poll, .push (.other ()) 7, .wakeup (.other ()), .pollReturn [1],
    .dispatch, .startCalling, .swap, .push (.other ()) 8, .runFunctor, .functorReturn, .endCalling,
    .test, .poll]

theorem no_lost_wakeup_pushBehindSwap
    : ∃ s, (system Nat Unit).run (initial (constructed Nat)) pushBehindSwap = some s
        ∧ s.loop.pendingFunctors = [8] ∧ s.loop.wakeupFd = 0
        ∧ (0 < s.loop.wakeupFd ∨ ∃ t, s.callers (.other t) = .pushed) := by
  have h : (system Nat Unit).run (initial (constructed Nat)) pushBehindSwap = some _ := rfl
  refine ⟨_, h, rfl, rfl, ?_⟩
  exact no_lost_wakeup ((reachable_initial new_constructed).run h) (.inr rfl) (by decide)

end Threads

/--
What `runAt` is for: the loop's timer queue holds one more one-shot timer, with this callback and this
expiration, and every other timer and every functor is as it was.
-/
structure Scheduled (l l' : EventLoop φ) (time : Timestamp) (cb : φ) (timerId : TimerId) : Prop where
  queues : ∃ q q', l.timerQueue = some q ∧ l'.timerQueue = some q'
    ∧ q'.heap =
        Function.update q.heap timerId.timer
          (some
            { callback := cb
              expiration := time
              interval := 0
              repeat_ := false
              sequence := timerId.sequence })
    ∧ (∀ e, e ∈ q'.timers ↔ e = toLex (time, timerId.timer) ∨ e ∈ q.timers)
    ∧ (∀ e, e ∈ q'.activeTimers ↔
        e = toLex (timerId.timer, timerId.sequence) ∨ e ∈ q.activeTimers)
  pendingFunctors : l'.pendingFunctors = l.pendingFunctors
  functors : l'.functors = l.functors

/--
Given a timer queue, `runAt` does what it is for, at whatever unused address the timer is allocated.
-/
theorem runAt_of_timerQueue {l : EventLoop φ} {q : TimerQueue φ} (hq : l.timerQueue = some q)
    (time : Timestamp) (cb : φ) (timer : Addr) (clock : Int)
    : ∃ l' timerId, l.runAt time cb timer clock = some (l', timerId)
        ∧ l.Scheduled l' time cb timerId := by
  obtain ⟨q', hadd, hsame⟩ := q.addTimer_eq_some timer cb time 0 clock
  have hrun : l.runAt time cb timer clock =
      some ({ l with timerQueue := some q' }, ⟨timer, q.numCreated + 1⟩) := by
    simp [runAt, hq, hadd, Timer.new]
  refine ⟨_, _, hrun, ⟨q, q', hq, rfl, ?_, ?_, ?_⟩, rfl, rfl⟩
  . rw [hsame.heap]
    simp [TimerQueue.inserted, TimerQueue.allocated, Timer.new]
  . intro e
    rw [hsame.timers]
    simp [TimerQueue.inserted, TimerQueue.allocated, Timer.new]
  . intro e
    rw [hsame.activeTimers]
    simp [TimerQueue.inserted, TimerQueue.allocated, Timer.new]

namespace Threads

variable {τ : Type} [DecidableEq τ]

/--
No reachable state of a loop has a timer queue: `runAt` and `runAfter` dereference the null pointer.
-/
theorem not_scheduled {s : Threads φ τ} (h : (system φ τ).Reachable s) (time : Timestamp)
    (delay : Rat) (cb : φ) (timer : Addr) (clock : Int)
    : (¬∃ l' timerId, s.loop.runAt time cb timer clock = some (l', timerId)
        ∧ s.loop.Scheduled l' time cb timerId)
      ∧ ¬∃ l' timerId, s.loop.runAfter delay cb timer clock = some (l', timerId)
        ∧ s.loop.Scheduled l' (addTime (Timestamp.now clock) delay) cb timerId := by
  have hnull := (inv_of_reachable h).timerQueue
  constructor
  . intro hscheduled
    obtain ⟨l', timerId, hrun, _⟩ := hscheduled
    simp [runAt, hnull] at hrun
  . intro hscheduled
    obtain ⟨l', timerId, hrun, _⟩ := hscheduled
    simp [runAfter, runAt, hnull] at hrun

/--
A loop fresh from its constructor, and a callback one second ahead.
-/
theorem runAfter_constructed_null
    : (system Unit Unit).Reachable (initial (constructed Unit))
        ∧ (constructed Unit).runAfter 1 () 64 1700000000000000 = none :=
  ⟨reachable_initial new_constructed, rfl⟩

theorem not_scheduled_constructed
    : (¬∃ l' timerId, (constructed Unit).runAt 5 () 64 1700000000000000 = some (l', timerId)
        ∧ (constructed Unit).Scheduled l' 5 () timerId)
      ∧ ¬∃ l' timerId, (constructed Unit).runAfter 1 () 64 1700000000000000 = some (l', timerId)
        ∧ (constructed Unit).Scheduled l' (addTime (Timestamp.now 1700000000000000) 1) ()
          timerId :=
  not_scheduled (τ := Unit) (reachable_initial new_constructed) 5 1 () 64 1700000000000000

end Threads

end EventLoop

end MyMuduo
