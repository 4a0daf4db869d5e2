import MyMuduo.Timer.Lemmas
import MyMuduo.Transition.Basic

/-!
This module contains the runs of a timer queue in its loop: the real time that passes, the timerfd that
the poller reports, `handleRead` with the callbacks it runs, and what they and other threads ask for.
-/

namespace MyMuduo

universe u

/--
A `handleRead` in progress: the real time at which it began, its `now`, its batch, the rest of the batch
that is still to be run, and whether a callback is running.
-/
structure HandleRead where
  start : Int
  now : Timestamp
  expired : List Entry
  todo : List Entry
  running : Bool

-- a callback that the call of `handleRead` with the number `read` has started
structure Run where
  read : Nat
  start : Int
  sequence : Nat
  expiration : Timestamp
  deriving DecidableEq, Repr

/--
`queued` are the functors `addTimerInLoop` of other threads. `ended` and `ran` are history: when the
calls of `handleRead` that have returned began, and the callbacks that were started.
-/
structure TimerLoop (φ : Type u) where
  clock : Int
  queue : TimerQueue φ
  queued : List Addr
  reported : Bool
  frame : Option HandleRead
  ended : List Int
  ran : List Run

namespace TimerLoop

variable {φ : Type u}

/--
`timer` is the address that `new Timer` returns. `addTimer` and `cancel` are calls on the loop thread, of
a callback or of another handler; `createTimer` is `addTimer` on another thread up to `queueInLoop`, and
`addTimerInLoop` runs the functor.
-/
inductive Label (φ : Type u) where
  | tick (microseconds : Nat)
  | addTimer (timer : Addr) (cb : φ) (when_ : Timestamp) (interval : Rat)
  | createTimer (timer : Addr) (cb : φ) (when_ : Timestamp) (interval : Rat)
  | addTimerInLoop
  | cancel (timerId : TimerId)
  | report
  | handleRead
  | run
  | return_
  | reset

-- the loop thread runs code of the user
def inUserCode (s : TimerLoop φ) : Bool :=
  s.frame.all (·.running)

-- an address that the allocator may return
def allocates (s : TimerLoop φ) (timer : Addr) : Bool :=
  (s.queue.heap timer).isNone && 0 < timer && timer < UINTPTR_MAX

def enabled (s : TimerLoop φ) : Label φ → Bool
  | .tick _ => true
  | .addTimer timer .. => s.inUserCode && s.allocates timer
  | .createTimer timer .. => s.allocates timer
  | .addTimerInLoop => s.frame.isNone
  | .cancel _ => s.inUserCode
  | .report => s.frame.isNone && s.queue.timerfd.any (· ≤ s.clock)
  | .handleRead => s.frame.isNone && s.reported
  | .run => s.frame.any fun f => !f.running
  | .return_ => s.frame.any (·.running)
  | .reset => s.frame.any fun f => !f.running && f.todo.isEmpty

-- `handleRead` up to the loop over the batch
def handleRead (s : TimerLoop φ) : Option (TimerLoop φ) :=
  let now := Timestamp.now s.clock
  ((s.queue.readTimerfd s.clock).getExpired now).map fun (queue, expired) =>
    { s with
        queue := { queue with callingExpiredTimers := true, cancelingTimers := .empty }
        reported := false
        frame :=
          some { start := s.clock, now := now, expired := expired, todo := expired, running := false } }

def run (s : TimerLoop φ) (f : HandleRead) : Option (TimerLoop φ) :=
  match f.todo with
  | [] => none
  | it :: todo =>
    (s.queue.heap (ofLex it).2).map fun t =>
      { s with
          frame := some { f with todo := todo, running := true }
          ran := s.ran ++ [⟨s.ended.length, f.start, t.sequence, t.expiration⟩] }

-- `handleRead` behind the loop over the batch
def reset (s : TimerLoop φ) (f : HandleRead) : Option (TimerLoop φ) :=
  ({ s.queue with callingExpiredTimers := false }.reset f.expired f.now s.clock).map fun queue =>
    { s with queue := queue, frame := none, ended := s.ended ++ [f.start] }

def next (s : TimerLoop φ) : Label φ → Option (TimerLoop φ)
  | .tick microseconds => some { s with clock := s.clock + microseconds }
  | .addTimer timer cb when_ interval =>
    (s.queue.addTimer timer cb when_ interval s.clock).map fun (queue, _) => { s with queue := queue }
  | .createTimer timer cb when_ interval =>
    some
      { s with
          queue := s.queue.allocated timer (Timer.new cb when_ interval s.queue.numCreated)
          queued := s.queued ++ [timer] }
  | .addTimerInLoop =>
    match s.queued with
    | [] => none
    | timer :: queued =>
      (s.queue.addTimerInLoop timer s.clock).map fun queue => { s with queue := queue, queued := queued }
  | .cancel timerId => (s.queue.cancelInLoop timerId).map fun queue => { s with queue := queue }
  | .report => some { s with reported := true }
  | .handleRead => s.handleRead
  | .run => s.frame.bind s.run
  | .return_ => s.frame.map fun f => { s with frame := some { f with running := false } }
  | .reset => s.frame.bind s.reset

def new (clock : Int) : TimerLoop φ where
  clock := clock
  queue := .new
  queued := []
  reported := false
  frame := none
  ended := []
  ran := []

-- time may begin anywhere
def system (φ : Type u) : LTS (TimerLoop φ) (Label φ) :=
  .guarded (fun s => ∃ clock, s = new clock) enabled next

-- `handleRead` at any time, whatever the poller reports
def enabledAnyTime (s : TimerLoop φ) : Label φ → Bool
  | .handleRead => s.frame.isNone
  | a => s.enabled a

/--
The system in which the calls of `handleRead` come at any time. With the clock, their `now` is any
sequence that does not decrease.
-/
def anyTime (φ : Type u) : LTS (TimerLoop φ) (Label φ) :=
  .guarded (fun s => ∃ clock, s = new clock) enabledAnyTime next

theorem enabledAnyTime_of_enabled {s : TimerLoop φ} {a : Label φ} (h : s.enabled a = true)
    : s.enabledAnyTime a = true := by
  cases a with
  | handleRead =>
    simp only [enabled, Bool.and_eq_true] at h
    exact h.1
  | _ => exact h

end TimerLoop

end MyMuduo
