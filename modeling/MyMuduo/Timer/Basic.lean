import Mathlib.Data.Prod.Lex
import Mathlib.Logic.Function.Basic
import Mathlib.Data.Rat.Defs
import MyMuduo.Data.SortedSet
import MyMuduo.Poller.Basic

/-!
This module contains timestamps, timers and the timer queue of a loop. `Timer` objects live in a
heap, and an operation that dereferences a deleted one has no result. Time is the real time in
microseconds; `double` values are taken as exact rationals.
-/

namespace MyMuduo

-- `microSecondsSinceEpoch_`
abbrev Timestamp := Int

namespace Timestamp

def kMicroSecondsPerSecond : Int := 1000 * 1000

-- `time(NULL)` of the C library: whole seconds
def time (clock : Int) : Int :=
  clock / 1000000

def now (clock : Int) : Timestamp :=
  time clock

def invalid : Timestamp := 0

def valid (t : Timestamp) : Bool :=
  t > 0

end Timestamp

-- `static_cast<int64_t>` drops the fraction. The product is exact here, and a rounded `double` in the source:
-- 0.000249 seconds are 249 us here and 248 there.
def addTime (timestamp : Timestamp) (seconds : Rat) : Timestamp :=
  let delta := seconds * Timestamp.kMicroSecondsPerSecond
  timestamp + delta.num.tdiv delta.den

universe u

structure Timer (φ : Type u) where
  callback : φ
  expiration : Timestamp
  interval : Rat
  repeat_ : Bool
  sequence : Nat
  deriving DecidableEq, Repr

structure TimerId where
  timer : Addr
  sequence : Nat
  deriving DecidableEq, Repr

structure Timespec where
  tv_sec : Int
  tv_nsec : Int
  deriving DecidableEq, Repr

abbrev Entry := Timestamp ×ₗ Addr

abbrev ActiveTimer := Addr ×ₗ Nat

def UINTPTR_MAX : Addr := 0xffffffffffffffff

/--
A timer queue with the heap of its `Timer` objects, the counter `Timer::s_numCreated_`, the real time at
which the armed `timerfd_` expires and the values that `timerfd_settime` has been given.
-/
structure TimerQueue (φ : Type u) where
  timerfd : Option Int
  timers : SortedSet Entry
  activeTimers : SortedSet ActiveTimer
  callingExpiredTimers : Bool
  cancelingTimers : SortedSet ActiveTimer
  heap : Addr → Option (Timer φ)
  numCreated : Nat
  settimes : List Timespec

namespace Timer

variable {φ : Type u}

def new (cb : φ) (when_ : Timestamp) (interval : Rat) (numCreated : Nat) : Timer φ where
  callback := cb
  expiration := when_
  interval := interval
  repeat_ := interval > 0
  sequence := numCreated + 1

def restart (t : Timer φ) (now : Timestamp) : Timer φ :=
  if t.repeat_ then
    { t with expiration := addTime now t.interval }
  else
    { t with expiration := Timestamp.invalid }

theorem sequence_restart (t : Timer φ) (now : Timestamp) : (t.restart now).sequence = t.sequence := by
  unfold restart
  split <;> rfl

end Timer

def howMuchTimeFromNow (when_ : Timestamp) (clock : Int) : Timespec :=
  let microseconds := when_ - Timestamp.now clock
  let microseconds := if microseconds < 100 then 100 else microseconds
  { tv_sec := microseconds.tdiv Timestamp.kMicroSecondsPerSecond
    tv_nsec := microseconds.tmod Timestamp.kMicroSecondsPerSecond * 1000 }

namespace TimerQueue

variable {φ : Type u}

def new : TimerQueue φ where
  timerfd := none
  timers := .empty
  activeTimers := .empty
  callingExpiredTimers := false
  cancelingTimers := .empty
  heap _ := none
  numCreated := 0
  settimes := []

-- `timerfd_settime` with a relative value
def settime (q : TimerQueue φ) (value : Timespec) (clock : Int) : TimerQueue φ :=
  { q with
      timerfd := some (clock + value.tv_sec * 1000000 + value.tv_nsec / 1000)
      settimes := q.settimes ++ [value] }

def resetTimerfd (q : TimerQueue φ) (expiration : Timestamp) (clock : Int) : TimerQueue φ :=
  q.settime (howMuchTimeFromNow expiration clock) clock

-- reading an expired timerfd disarms it, as it has no period
def readTimerfd (q : TimerQueue φ) (clock : Int) : TimerQueue φ :=
  match q.timerfd with
  | some expiry => if expiry ≤ clock then { q with timerfd := none } else q
  | none => q

def freed (q : TimerQueue φ) (timer : Addr) : TimerQueue φ :=
  { q with heap := Function.update q.heap timer none }

-- `delete` of a timer that is deleted already has no result
def delete (q : TimerQueue φ) (timer : Addr) : Option (TimerQueue φ) :=
  (q.heap timer).map fun _ => q.freed timer

def insert (q : TimerQueue φ) (timer : Addr) : Option (TimerQueue φ × Bool) :=
  (q.heap timer).map fun t =>
    let when_ := t.expiration
    let earliestChanged :=
      match q.timers.min? with
      | none => true
      | some first => when_ < (ofLex first).1
    ({ q with
        timers := q.timers.insert (toLex (when_, timer))
        activeTimers := q.activeTimers.insert (toLex (timer, t.sequence)) },
      earliestChanged)

def addTimerInLoop (q : TimerQueue φ) (timer : Addr) (clock : Int) : Option (TimerQueue φ) :=
  (q.insert timer).bind fun (q, earliestChanged) =>
    if earliestChanged then
      (q.heap timer).map fun t => q.resetTimerfd t.expiration clock
    else
      some q

/--
`addTimer` on the loop thread, where `runInLoop` runs `addTimerInLoop` at once. `timer` is the
address that `new Timer` returns.
-/
def addTimer (q : TimerQueue φ) (timer : Addr) (cb : φ) (when_ : Timestamp) (interval : Rat)
    (clock : Int) : Option (TimerQueue φ × TimerId) :=
  let t := Timer.new cb when_ interval q.numCreated
  let q :=
    { q with
        heap := Function.update q.heap timer (some t)
        numCreated := q.numCreated + 1 }
  (q.addTimerInLoop timer clock).bind fun q =>
    (q.heap timer).map fun t => (q, { timer := timer, sequence := t.sequence })

def cancelInLoop (q : TimerQueue φ) (timerId : TimerId) : Option (TimerQueue φ) :=
  let timer : ActiveTimer := toLex (timerId.timer, timerId.sequence)
  if timer ∈ q.activeTimers then
    (q.heap timerId.timer).bind fun t =>
      let q := { q with timers := q.timers.erase (toLex (t.expiration, timerId.timer)) }
      (q.delete timerId.timer).map fun q =>
        { q with activeTimers := q.activeTimers.erase timer }
  else if q.callingExpiredTimers then
    some { q with cancelingTimers := q.cancelingTimers.insert timer }
  else
    some q

-- the loop of `getExpired` over the batch
def eraseActive (q : TimerQueue φ) : List Entry → Option (TimerQueue φ)
  | [] => some q
  | it :: expired =>
    (q.heap (ofLex it).2).bind fun t =>
      eraseActive
        { q with activeTimers := q.activeTimers.erase (toLex ((ofLex it).2, t.sequence)) } expired

def getExpired (q : TimerQueue φ) (now : Timestamp) : Option (TimerQueue φ × List Entry) :=
  let sentry : Entry := toLex (now, UINTPTR_MAX)
  let expired := q.timers.below sentry
  (eraseActive { q with timers := q.timers.dropBelow sentry } expired).map fun q => (q, expired)

-- the loop of `reset` over the batch
def resetEntries (q : TimerQueue φ) (now : Timestamp) : List Entry → Option (TimerQueue φ)
  | [] => some q
  | it :: expired =>
    (q.heap (ofLex it).2).bind fun t =>
      if t.repeat_ && toLex ((ofLex it).2, t.sequence) ∉ q.cancelingTimers then
        let q := { q with heap := Function.update q.heap (ofLex it).2 (some (t.restart now)) }
        (q.insert (ofLex it).2).bind fun (q, _) => resetEntries q now expired
      else
        (q.delete (ofLex it).2).bind fun q => resetEntries q now expired

def reset (q : TimerQueue φ) (expired : List Entry) (now : Timestamp) (clock : Int)
    : Option (TimerQueue φ) :=
  (q.resetEntries now expired).bind fun q =>
    let nextExpire : Option Timestamp :=
      match q.timers.min? with
      | none => some Timestamp.invalid
      | some first => (q.heap (ofLex first).2).map (·.expiration)
    nextExpire.map fun nextExpire =>
      if nextExpire.valid then
        q.resetTimerfd nextExpire clock
      else
        q

end TimerQueue

end MyMuduo
