import MyMuduo.EventLoop.Lemmas

/-!
This module contains a thread that owns an event loop: the interleavings of the owner, which obtains
the loop from `startLoop` and later destroys the `EventLoopThread`, with the worker's `threadFunc`,
the loop it runs, and other threads that queue functors to that loop.
-/

namespace MyMuduo

namespace EventLoopThread

open EventLoop (Threads Thread)

inductive OwnerPc where
  | constructed
  | waiting
  | running
  | destroying
  | calling
  | quitting
  | joining
  | destroyed
  deriving DecidableEq, Repr

inductive WorkerPc where
  | notStarted
  | started
  | callback
  | published
  | looping
  | returned
  | cleared
  | finished
  deriving DecidableEq, Repr

/--
`threads` is the `EventLoop` object on the worker's stack with everyone who uses it, `none` while it
does not exist; the thread `other none` is the owner. `loop` says whether `loop_` is set. The last
four fields are history: whether the owner has called `quit`, how many polls have begun since, whether
that call was made on an object that no longer existed, and whether the object was gone when the call
came to its `wakeup`.
-/
structure State (φ τ : Type) where
  owner : OwnerPc
  worker : WorkerPc
  loop : Bool
  exiting : Bool
  threads : Option (Threads φ (Option τ))
  quitCalled : Bool
  pollsSinceQuit : Nat
  danglingQuit : Bool
  danglingWakeup : Bool

inductive Label (φ τ : Type) where
  | startLoop
  | startLoopReturn
  | destroy
  | readLoop
  | quit
  | quitWakeup
  | join
  | construct (evtfd : Fd) (wakeupChannel : Addr)
  | publish
  | enterLoop
  | loop (a : EventLoop.Label φ (Option τ))
  | loopReturn
  | clearLoop
  | destroyLoop

variable {φ τ : Type} [DecidableEq τ]

/--
The steps on the loop that are not the owner's call of `quit`. The owner queues functors only while it
holds the loop; the worker's own calls come from `callback_` and from inside `loop`. A `quit` that a
callback or a functor of the loop calls is left out.
-/
def mayStep (s : State φ τ) : EventLoop.Label φ (Option τ) → Bool
  | .enter | .quit _ | .quitWakeup _ => false
  | .push (.other none) _ | .wakeup (.other none) => s.owner = .running
  | .push (.other (some _)) _ | .wakeup (.other (some _)) => true
  | _ => s.worker = .callback || s.worker = .looping

def ownerIdle (s : State φ τ) : Bool :=
  s.threads.all fun threads => threads.callers (.other none) = .idle

def enabled (s : State φ τ) : Label φ τ → Bool
  | .startLoop => s.owner = .constructed
  -- `cond_` is waited for until `loop_` is set
  | .startLoopReturn => s.owner = .waiting && s.loop
  | .destroy => s.owner = .running && ownerIdle s
  | .readLoop => s.owner = .destroying
  | .quit => s.owner = .calling
  | .quitWakeup => s.owner = .quitting
  | .join => s.owner = .joining && s.worker = .finished
  | .construct .. => s.worker = .started
  | .publish => s.worker = .callback
  | .enterLoop => s.worker = .published
  | .loop a => mayStep s a
  | .loopReturn =>
    s.worker = .looping && s.threads.all fun threads => threads.pc = .outside
  | .clearLoop => s.worker = .returned
  | .destroyLoop => s.worker = .cleared

def next (s : State φ τ) : Label φ τ → Option (State φ τ)
  | .startLoop => some { s with owner := .waiting, worker := .started }
  | .startLoopReturn => some { s with owner := .running }
  | .destroy => some { s with owner := .destroying, exiting := true }
  -- outside the mutex
  | .readLoop => some { s with owner := if s.loop then .calling else .destroyed }
  | .quit =>
    match s.threads with
    | none => some { s with owner := .quitting, quitCalled := true, danglingQuit := true }
    | some threads =>
      ((Threads.system φ (Option τ)).step threads (.quit (.other none))).map fun threads =>
        { s with owner := .quitting, threads := some threads, quitCalled := true }
  | .quitWakeup =>
    match s.threads with
    | none => some { s with owner := .joining, danglingWakeup := true }
    | some threads =>
      ((Threads.system φ (Option τ)).step threads (.quitWakeup (.other none))).map fun threads =>
        { s with owner := .joining, threads := some threads }
  | .join => some { s with owner := .destroyed }
  | .construct evtfd wakeupChannel =>
    (EventLoop.new false evtfd wakeupChannel).map fun loop =>
      { s with worker := .callback, threads := some (.initial loop) }
  | .publish => some { s with worker := .published, loop := true }
  | .enterLoop =>
    s.threads.bind fun threads =>
      ((Threads.system φ (Option τ)).step threads .enter).map fun threads =>
        { s with worker := .looping, threads := some threads }
  | .loop a =>
    s.threads.bind fun threads =>
      ((Threads.system φ (Option τ)).step threads a).map fun threads =>
        { s with
            threads := some threads
            pollsSinceQuit :=
              match a with
              | .poll => if s.quitCalled then s.pollsSinceQuit + 1 else s.pollsSinceQuit
              | _ => s.pollsSinceQuit }
  | .loopReturn => some { s with worker := .returned }
  | .clearLoop => some { s with worker := .cleared, loop := false }
  | .destroyLoop => some { s with worker := .finished, threads := none }

def initial : State φ τ where
  owner := .constructed
  worker := .notStarted
  loop := false
  exiting := false
  threads := none
  quitCalled := false
  pollsSinceQuit := 0
  danglingQuit := false
  danglingWakeup := false

def system (φ τ : Type) [DecidableEq τ] : LTS (State φ τ) (Label φ τ) :=
  .guarded (· = initial) enabled next

end EventLoopThread

end MyMuduo
