import MyMuduo.Poller.Basic
import MyMuduo.Timer.Basic

/-!
This module contains the event loop object: the queue of pending functors, the eventfd that wakes
the loop thread, and the calls that schedule timers.
-/

namespace MyMuduo

universe u

/--
`wakeupFd` is the counter of the eventfd, `functors` the rest of the batch that `doPendingFunctors`
has taken and is executing, `timerQueue = none` the null pointer.
-/
structure EventLoop (φ : Type u) where
  looping : Bool
  quit_ : Bool
  poller : EPollPoller
  wakeupFd : Nat
  wakeupChannel : Channel
  activeChannels : List Addr
  callingPendingFunctors : Bool
  pendingFunctors : List φ
  functors : List φ
  timerQueue : Option (TimerQueue φ)

namespace EventLoop

variable {φ : Type u}

-- `write` to an eventfd fails when the counter would pass this value
def EFD_MAX : Nat := 0xfffffffffffffffe

/--
The constructor. `t_loopInThisThread` says whether the thread already owns a loop.
-/
def new (t_loopInThisThread : Bool) (evtfd : Fd) (wakeupChannel : Addr)
    : Option (EventLoop φ) :=
  if t_loopInThisThread then
    none
  else
    let channel := Channel.new wakeupChannel evtfd [.read]
    (channel.enableReading .empty).map fun (poller, channel) =>
      { looping := false
        quit_ := false
        poller := poller
        wakeupFd := 0
        wakeupChannel := channel
        activeChannels := []
        callingPendingFunctors := false
        pendingFunctors := []
        functors := []
        timerQueue := none }

def wakeup (l : EventLoop φ) : EventLoop φ :=
  if l.wakeupFd < EFD_MAX then
    { l with wakeupFd := l.wakeupFd + 1 }
  else
    l

def handleRead (l : EventLoop φ) : EventLoop φ :=
  { l with wakeupFd := 0 }

-- the part of `queueInLoop` under the mutex
def pushFunctor (l : EventLoop φ) (cb : φ) : EventLoop φ :=
  { l with pendingFunctors := l.pendingFunctors ++ [cb] }

-- the rest of `queueInLoop`
def wakeupIfNeeded (l : EventLoop φ) (isInLoopThread : Bool) : EventLoop φ :=
  if !isInLoopThread || l.callingPendingFunctors then
    l.wakeup
  else
    l

def queueInLoop (l : EventLoop φ) (isInLoopThread : Bool) (cb : φ) : EventLoop φ :=
  (l.pushFunctor cb).wakeupIfNeeded isInLoopThread

-- the part of `doPendingFunctors` under the mutex
def swapFunctors (l : EventLoop φ) : EventLoop φ :=
  { l with functors := l.pendingFunctors, pendingFunctors := [] }

/--
`runAt` on the loop thread. `timer` is the address that `new Timer` returns, `clock` the real time.
-/
def runAt (l : EventLoop φ) (time : Timestamp) (cb : φ) (timer : Addr) (clock : Int)
    : Option (EventLoop φ × TimerId) :=
  l.timerQueue.bind fun q =>
    (q.addTimer timer cb time 0 clock).map fun (q, timerId) =>
      ({ l with timerQueue := some q }, timerId)

def runAfter (l : EventLoop φ) (delay : Rat) (cb : φ) (timer : Addr) (clock : Int)
    : Option (EventLoop φ × TimerId) :=
  let time := addTime (Timestamp.now clock) delay
  l.runAt time cb timer clock

@[simp]
theorem pendingFunctors_wakeup (l : EventLoop φ) : l.wakeup.pendingFunctors = l.pendingFunctors := by
  unfold wakeup
  split <;> rfl

@[simp]
theorem functors_wakeup (l : EventLoop φ) : l.wakeup.functors = l.functors := by
  unfold wakeup
  split <;> rfl

@[simp]
theorem callingPendingFunctors_wakeup (l : EventLoop φ)
    : l.wakeup.callingPendingFunctors = l.callingPendingFunctors := by
  unfold wakeup
  split <;> rfl

@[simp]
theorem timerQueue_wakeup (l : EventLoop φ) : l.wakeup.timerQueue = l.timerQueue := by
  unfold wakeup
  split <;> rfl

@[simp]
theorem quit_wakeup (l : EventLoop φ) : l.wakeup.quit_ = l.quit_ := by
  unfold wakeup
  split <;> rfl

@[simp]
theorem poller_wakeup (l : EventLoop φ) : l.wakeup.poller = l.poller := by
  unfold wakeup
  split <;> rfl

@[simp]
theorem pendingFunctors_queueInLoop (l : EventLoop φ) (isInLoopThread : Bool) (cb : φ)
    : (l.queueInLoop isInLoopThread cb).pendingFunctors = l.pendingFunctors ++ [cb] := by
  unfold queueInLoop wakeupIfNeeded
  split <;> simp [pushFunctor]

@[simp]
theorem functors_queueInLoop (l : EventLoop φ) (isInLoopThread : Bool) (cb : φ)
    : (l.queueInLoop isInLoopThread cb).functors = l.functors := by
  unfold queueInLoop wakeupIfNeeded
  split <;> simp [pushFunctor]

@[simp]
theorem poller_queueInLoop (l : EventLoop φ) (isInLoopThread : Bool) (cb : φ)
    : (l.queueInLoop isInLoopThread cb).poller = l.poller := by
  unfold queueInLoop wakeupIfNeeded
  split <;> simp [pushFunctor]

@[simp]
theorem timerQueue_queueInLoop (l : EventLoop φ) (isInLoopThread : Bool) (cb : φ)
    : (l.queueInLoop isInLoopThread cb).timerQueue = l.timerQueue := by
  unfold queueInLoop wakeupIfNeeded
  split <;> simp [pushFunctor]

theorem wakeupFd_wakeup_pos (l : EventLoop φ) : 0 < l.wakeup.wakeupFd := by
  unfold wakeup
  split
  . apply Nat.succ_pos
  . next h =>
    have : 0 < EFD_MAX := by decide
    omega

/--
A loop with a wakeup descriptor 3 whose channel is the object at address 1.
-/
def constructed (φ : Type u) : EventLoop φ :=
  (EventLoop.new false 3 1).get (by rfl)

theorem new_constructed : EventLoop.new false 3 1 = some (constructed φ) :=
  (Option.some_get _).symm

end EventLoop

end MyMuduo
