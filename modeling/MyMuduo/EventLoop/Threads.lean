import MyMuduo.EventLoop.Basic
import MyMuduo.Transition.Fifo

/-!
This module contains the interleavings of a loop thread running `EventLoop::loop` with any number of
other threads that call `queueInLoop` and `quit`. Each access to a field shared between threads is a
step of its own.
-/

namespace MyMuduo

namespace EventLoop

/--
Where the loop thread is: outside `loop`, at one of its statements, inside a channel callback or
inside a functor.
-/
inductive LoopPc where
  | outside
  | entered
  | test
  | aboutToPoll
  | polling
  | events
  | callback
  | swapping
  | functors
  | functor
  deriving DecidableEq, Repr

inductive Thread (τ : Type) where
  | loop
  | other (t : τ)
  deriving DecidableEq, Repr

/--
How far a thread is in a call of `queueInLoop` or `quit`: `pushed` after the push, `quitting` after
the store to `quit_`.
-/
inductive Caller where
  | idle
  | pushed
  | quitting
  deriving DecidableEq, Repr

/--
The fields `queued`, `executed` and `stale` are history: the functors in the order of their pushes,
those whose execution has begun, and how many of the pending ones were there when `loop` was entered.
-/
structure Threads (φ τ : Type) where
  loop : EventLoop φ
  pc : LoopPc
  callers : Thread τ → Caller
  queued : List φ
  executed : List φ
  stale : Nat

inductive Label (φ τ : Type) where
  | push (t : Thread τ) (cb : φ)
  | wakeup (t : Thread τ)
  | quit (t : Thread τ)
  | quitWakeup (t : Thread τ)
  | updateChannel (c : Channel)
  | removeChannel (c : Channel)
  | runAt (time : Timestamp) (cb : φ) (timer : Addr) (clock : Int)
  | runAfter (delay : Rat) (cb : φ) (timer : Addr) (clock : Int)
  | enter
  | clearQuit
  | test
  | poll
  | pollReturn (ready : List Addr)
  | dispatch
  | callbackReturn
  | startCalling
  | swap
  | runFunctor
  | functorReturn
  | endCalling

-- where the loop thread runs code of the library's users or of its other classes
def LoopPc.runsUserCode : LoopPc → Bool
  | .outside | .callback | .functor => true
  | _ => false

variable {φ τ : Type}

namespace Threads

-- a loop as its constructor leaves it, before any call
def Constructed (s : Threads φ τ) : Prop :=
  (∃ evtfd wakeupChannel, EventLoop.new false evtfd wakeupChannel = some s.loop)
    ∧ s.pc = .outside ∧ (∀ t, s.callers t = .idle) ∧ s.queued = [] ∧ s.executed = []

def initial (loop : EventLoop φ) : Threads φ τ where
  loop := loop
  pc := .outside
  callers _ := .idle
  queued := []
  executed := []
  stale := 0

-- a statement of `loop` itself, at `pc`
def atPc (s : Threads φ τ) (pc : LoopPc) : Bool :=
  s.callers .loop = .idle && s.pc = pc

variable [DecidableEq τ]

def mayCall (s : Threads φ τ) (t : Thread τ) : Bool :=
  s.callers t = .idle && (t ≠ .loop || s.pc.runsUserCode)

def enabled (s : Threads φ τ) : Label φ τ → Bool
  | .push t _ => s.mayCall t
  | .wakeup t => s.callers t = .pushed
  | .quit t => s.mayCall t
  | .quitWakeup t => s.callers t = .quitting
  | .updateChannel _ => s.mayCall .loop
  | .removeChannel _ => s.mayCall .loop
  | .runAt .. => s.mayCall .loop
  | .runAfter .. => s.mayCall .loop
  | .enter => s.atPc .outside
  | .clearQuit => s.atPc .entered
  | .test => s.atPc .test
  | .poll => s.atPc .aboutToPoll
  -- the wakeup channel is reported only while the counter is not zero
  | .pollReturn ready =>
    s.atPc .polling && (!ready.contains s.loop.wakeupChannel.addr || 0 < s.loop.wakeupFd)
  | .dispatch => s.atPc .events
  | .callbackReturn => s.atPc .callback
  | .startCalling => s.atPc .events && s.loop.activeChannels.isEmpty
  | .swap => s.atPc .swapping
  | .runFunctor => s.atPc .functors
  | .functorReturn => s.atPc .functor
  | .endCalling => s.atPc .functors && s.loop.functors.isEmpty

def next (s : Threads φ τ) : Label φ τ → Option (Threads φ τ)
  | .push t cb =>
    some
      { s with
          loop := s.loop.pushFunctor cb
          callers := Function.update s.callers t .pushed
          queued := s.queued ++ [cb] }
  | .wakeup t =>
    some
      { s with
          loop := s.loop.wakeupIfNeeded (t = .loop)
          callers := Function.update s.callers t .idle }
  | .quit t =>
    some
      { s with
          loop := { s.loop with quit_ := true }
          callers := Function.update s.callers t .quitting }
  | .quitWakeup t =>
    some
      { s with
          loop := if t = .loop then s.loop else s.loop.wakeup
          callers := Function.update s.callers t .idle }
  | .updateChannel c =>
    (s.loop.poller.updateChannel c).map fun (poller, _) =>
      { s with loop := { s.loop with poller := poller } }
  | .removeChannel c =>
    (s.loop.poller.removeChannel c).map fun (poller, _) =>
      { s with loop := { s.loop with poller := poller } }
  | .runAt time cb timer clock =>
    (s.loop.runAt time cb timer clock).map fun (loop, _) => { s with loop := loop }
  | .runAfter delay cb timer clock =>
    (s.loop.runAfter delay cb timer clock).map fun (loop, _) => { s with loop := loop }
  | .enter =>
    some
      { s with
          loop := { s.loop with looping := true }
          pc := .entered
          stale := s.loop.pendingFunctors.length }
  | .clearQuit => some { s with loop := { s.loop with quit_ := false }, pc := .test }
  | .test =>
    if s.loop.quit_ then
      some { s with loop := { s.loop with looping := false }, pc := .outside }
    else
      some { s with loop := { s.loop with activeChannels := [] }, pc := .aboutToPoll }
  | .poll => some { s with pc := .polling }
  | .pollReturn ready => some { s with loop := { s.loop with activeChannels := ready }, pc := .events }
  | .dispatch =>
    match s.loop.activeChannels with
    | [] => none
    | channel :: rest =>
      let loop := { s.loop with activeChannels := rest }
      if channel = s.loop.wakeupChannel.addr then
        some { s with loop := loop.handleRead }
      else
        some { s with loop := loop, pc := .callback }
  | .callbackReturn => some { s with pc := .events }
  | .startCalling =>
    some { s with loop := { s.loop with callingPendingFunctors := true }, pc := .swapping }
  | .swap => some { s with loop := s.loop.swapFunctors, pc := .functors, stale := 0 }
  | .runFunctor =>
    match s.loop.functors with
    | [] => none
    | functor :: rest =>
      some
        { s with
            loop := { s.loop with functors := rest }
            pc := .functor
            executed := s.executed ++ [functor] }
  | .functorReturn => some { s with pc := .functors }
  | .endCalling =>
    some { s with loop := { s.loop with callingPendingFunctors := false }, pc := .test }

def system (φ τ : Type) [DecidableEq τ] : LTS (Threads φ τ) (Label φ τ) :=
  .guarded Constructed enabled next

/--
The history changes in two ways: a push appends to `queued`, and `runFunctor` moves the first functor
of the batch to `executed`.
-/
theorem next_history {s s' : Threads φ τ} {a : Label φ τ} (h : s.next a = some s')
    : (s'.queued = s.queued ∧ s'.executed = s.executed)
      ∨ (∃ cb, s'.queued = s.queued ++ [cb] ∧ s'.executed = s.executed)
      ∨ (∃ functor rest, s.loop.functors = functor :: rest ∧ s'.queued = s.queued
          ∧ s'.executed = s.executed ++ [functor]) := by
  cases a with
  | push t cb =>
    simp only [next, Option.some.injEq] at h
    subst h
    exact .inr (.inl ⟨cb, rfl, rfl⟩)
  | runFunctor =>
    simp only [next] at h
    split at h
    . simp at h
    . next functor rest heq =>
      simp only [Option.some.injEq] at h
      subst h
      exact .inr (.inr ⟨functor, rest, heq, rfl, rfl⟩)
  | updateChannel | removeChannel | runAt | runAfter =>
    simp only [next, Option.map_eq_some_iff] at h
    obtain ⟨_, _, rfl⟩ := h
    exact .inl ⟨rfl, rfl⟩
  | test =>
    simp only [next] at h
    split at h
    all_goals
      simp only [Option.some.injEq] at h
      subst h
      exact .inl ⟨rfl, rfl⟩
  | dispatch =>
    simp only [next] at h
    split at h
    . simp at h
    . split at h
      all_goals
        simp only [Option.some.injEq] at h
        subst h
        exact .inl ⟨rfl, rfl⟩
  | wakeup | quit | quitWakeup | enter | clearQuit | poll | pollReturn | callbackReturn
  | startCalling | swap | functorReturn | endCalling =>
    simp only [next, Option.some.injEq] at h
    subst h
    exact .inl ⟨rfl, rfl⟩

theorem reachable_initial {evtfd : Fd} {wakeupChannel : Addr} {loop : EventLoop φ}
    (h : EventLoop.new false evtfd wakeupChannel = some loop)
    : (system φ τ).Reachable (initial loop) :=
  .init ⟨⟨evtfd, wakeupChannel, h⟩, rfl, fun _ => rfl, rfl, rfl⟩

end Threads

theorem new_eq_some {evtfd : Fd} {wakeupChannel : Addr} {l : EventLoop φ}
    (h : EventLoop.new false evtfd wakeupChannel = some l)
    : l.pendingFunctors = [] ∧ l.functors = [] ∧ l.timerQueue = none := by
  simp only [EventLoop.new, Bool.false_eq_true, if_false, Option.map_eq_some_iff] at h
  obtain ⟨_, _, rfl⟩ := h
  simp

theorem quit_new {evtfd : Fd} {wakeupChannel : Addr} {l : EventLoop φ}
    (h : EventLoop.new false evtfd wakeupChannel = some l) : l.quit_ = false := by
  simp only [EventLoop.new, Bool.false_eq_true, if_false, Option.map_eq_some_iff] at h
  obtain ⟨_, _, rfl⟩ := h
  rfl

end EventLoop

end MyMuduo
