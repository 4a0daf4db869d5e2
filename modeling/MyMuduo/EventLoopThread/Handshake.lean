import MyMuduo.EventLoopThread.Basic

/-!
This module contains the handshake of `startLoop` with `threadFunc`, with the semaphore of `Thread::start`, the
mutex and the condition variable: the owner does not sleep past the notification.
-/

namespace MyMuduo

namespace EventLoopThread

-- where `startLoop` is; at `test` it holds the mutex
inductive Handshake.Owner where
  | start
  | semWait
  | lock
  | test
  | asleep
  | woken
  | returned
  deriving DecidableEq, Repr

-- where the thread is; at `set`, `notify`, `unlock` and `clear` it holds the mutex
inductive Handshake.Worker where
  | absent
  | semPost
  | lock
  | set
  | notify
  | unlock
  | looping
  | relock
  | clear
  | finished
  deriving DecidableEq, Repr

inductive Handshake.Party where
  | owner
  | worker
  deriving DecidableEq, Repr

/--
`mutex_` is who holds it, `sem` the value of the semaphore, and `loop_` says whether it is not null.
-/
structure Handshake where
  owner : Handshake.Owner
  worker : Handshake.Worker
  mutex_ : Option Handshake.Party
  sem : Nat
  loop_ : Bool
  deriving DecidableEq, Repr

namespace Handshake

inductive Label where
  -- `startLoop`
  | threadStart
  | semWait
  | ownerLock
  | test
  -- `cond_.wait` returns without a notification
  | spuriousWakeup
  -- `threadFunc`; `callback_` and the constructor of the loop stand in front of the lock
  | semPost
  | workerLock
  | setLoop
  | notifyOne
  | workerUnlock
  | loopReturn
  | workerRelock
  | clearLoop
  deriving DecidableEq, Repr

def enabled (s : Handshake) : Label → Bool
  | .threadStart => s.owner = .start
  | .semWait => s.owner = .semWait && 0 < s.sem
  | .ownerLock => (s.owner = .lock || s.owner = .woken) && s.mutex_.isNone
  | .test => s.owner = .test
  | .spuriousWakeup => s.owner = .asleep
  | .semPost => s.worker = .semPost
  | .workerLock => s.worker = .lock && s.mutex_.isNone
  | .setLoop => s.worker = .set
  | .notifyOne => s.worker = .notify
  | .workerUnlock => s.worker = .unlock
  | .loopReturn => s.worker = .looping
  | .workerRelock => s.worker = .relock && s.mutex_.isNone
  | .clearLoop => s.worker = .clear

def next (s : Handshake) : Label → Handshake
  | .threadStart => { s with owner := .semWait, worker := .semPost }
  | .semWait => { s with owner := .lock, sem := s.sem - 1 }
  | .ownerLock => { s with owner := .test, mutex_ := some .owner }
  -- `cond_.wait` releases the mutex, and so does the end of the block behind the loop
  | .test => { s with owner := if s.loop_ then .returned else .asleep, mutex_ := none }
  | .spuriousWakeup => { s with owner := .woken }
  | .semPost => { s with worker := .lock, sem := s.sem + 1 }
  | .workerLock => { s with worker := .set, mutex_ := some .worker }
  | .setLoop => { s with worker := .notify, loop_ := true }
  | .notifyOne => { s with worker := .unlock, owner := if s.owner = .asleep then .woken else s.owner }
  | .workerUnlock => { s with worker := .looping, mutex_ := none }
  | .loopReturn => { s with worker := .relock }
  | .workerRelock => { s with worker := .clear, mutex_ := some .worker }
  -- the lock is released when `threadFunc` returns
  | .clearLoop => { s with worker := .finished, loop_ := false, mutex_ := none }

def initial : Handshake where
  owner := .start
  worker := .absent
  mutex_ := none
  sem := 0
  loop_ := false

def system : LTS Handshake Label :=
  .guarded (· = initial) enabled fun s a => some (s.next a)

def holdsMutex : Worker → Bool
  | .set | .notify | .unlock | .clear => true
  | .absent | .semPost | .lock | .looping | .relock | .finished => false

def published : Worker → Bool
  | .notify | .unlock | .looping | .relock | .clear => true
  | .absent | .semPost | .lock | .set | .finished => false

-- where the two can be at the same time: who is asleep has seen null and has not been notified since
def together : Owner → Worker → Bool
  | .start, worker => worker = .absent
  | .semWait, worker => worker ≠ .absent
  | .lock, worker | .woken, worker | .returned, worker => worker ≠ .absent && worker ≠ .semPost
  | .test, worker => worker ≠ .absent && worker ≠ .semPost && !holdsMutex worker
  | .asleep, worker =>
    worker ≠ .absent && worker ≠ .semPost && (!published worker || worker = .notify)

-- the rest of the state follows from where they are
def meeting (owner : Owner) (worker : Worker) : Handshake where
  owner := owner
  worker := worker
  mutex_ := if owner = .test then some .owner else if holdsMutex worker then some .worker else none
  sem := if owner = .semWait && worker ≠ .semPost then 1 else 0
  loop_ := published worker

structure Inv (s : Handshake) : Prop where
  eq : s = meeting s.owner s.worker
  together : together s.owner s.worker = true

variable {s s' : Handshake} {a : Label}

theorem step_iff : system.step s a = some s' ↔ s.enabled a = true ∧ s.next a = s' := by
  rw [system, LTS.guarded_step, Option.some.injEq]

theorem next_meeting {owner : Owner} {worker : Worker} (htogether : together owner worker = true)
    (henabled : (meeting owner worker).enabled a = true)
    : (meeting owner worker).next a
          = meeting ((meeting owner worker).next a).owner ((meeting owner worker).next a).worker
        ∧ together ((meeting owner worker).next a).owner ((meeting owner worker).next a).worker = true := by
  have hpc := henabled
  cases a with
  | threadStart | test | spuriousWakeup =>
    obtain rfl := of_decide_eq_true hpc
    cases worker <;> first | exact absurd htogether Bool.false_ne_true | exact ⟨rfl, rfl⟩
  | semWait =>
    obtain rfl := of_decide_eq_true (Bool.and_eq_true_iff.mp hpc).1
    cases worker <;>
      first
      | exact absurd henabled Bool.false_ne_true
      | exact absurd htogether Bool.false_ne_true
      | exact ⟨rfl, rfl⟩
  | ownerLock =>
    obtain hpc | hpc := (Bool.or_eq_true _ _).mp (Bool.and_eq_true_iff.mp hpc).1 <;>
    . obtain rfl := of_decide_eq_true hpc
      cases worker <;>
        first
        | exact absurd henabled Bool.false_ne_true
        | exact absurd htogether Bool.false_ne_true
        | exact ⟨rfl, rfl⟩
  | semPost | setLoop | notifyOne | workerUnlock | loopReturn | clearLoop =>
    obtain rfl := of_decide_eq_true hpc
    cases owner <;> first | exact absurd htogether Bool.false_ne_true | exact ⟨rfl, rfl⟩
  | workerLock | workerRelock =>
    obtain rfl := of_decide_eq_true (Bool.and_eq_true_iff.mp hpc).1
    cases owner <;>
      first
      | exact absurd henabled Bool.false_ne_true
      | exact absurd htogether Bool.false_ne_true
      | exact ⟨rfl, rfl⟩

theorem inv_reachable (h : system.Reachable s) : s.Inv := by
  refine LTS.Reachable.invariant Inv ?_ ?_ h
  . rintro s rfl
    exact ⟨rfl, rfl⟩
  . intro s a s' hinv hstep
    obtain ⟨henabled, rfl⟩ := step_iff.mp hstep
    obtain ⟨heq, htogether⟩ := hinv
    rw [heq] at henabled ⊢
    obtain ⟨hnext, htogether'⟩ := next_meeting htogether henabled
    exact ⟨hnext, htogether'⟩

-- a notification is still to come for an owner that sleeps while `loop_` is set
theorem Inv.asleep (h : s.Inv) (hasleep : s.owner = .asleep) (hloop : s.loop_ = true) : s.worker = .notify := by
  have htogether := h.together
  have hpublished : published s.worker = true := by
    rw [h.eq] at hloop
    exact hloop
  simp only [Handshake.together, hasleep, hpublished, Bool.not_true, Bool.false_or, Bool.and_eq_true,
    decide_eq_true_eq] at htogether
  exact htogether.2

-- the steps that are left for the owner
def rest : Owner → List Label
  | .start => [.threadStart, .semWait, .ownerLock, .test]
  | .semWait => [.semWait, .ownerLock, .test]
  | .lock | .woken => [.ownerLock, .test]
  | .asleep => [.spuriousWakeup, .ownerLock, .test]
  | .test => [.test]
  | .returned => []

theorem Inv.returns (h : s.Inv) (hworker : s.worker = .looping ∨ s.worker = .relock)
    : s.owner ≠ .asleep ∧ ∃ s', system.run s (rest s.owner) = some s' ∧ s'.owner = .returned := by
  obtain ⟨heq, htogether⟩ := h
  rw [heq] at htogether ⊢
  generalize s.owner = owner at htogether ⊢
  generalize s.worker = worker at hworker htogether ⊢
  obtain rfl | rfl := hworker <;> cases owner <;>
    first
    | exact absurd htogether Bool.false_ne_true
    | exact ⟨by decide, _, rfl, rfl⟩

-- a step that goes on
def goesOn : Owner → Worker → Label
  | .test, _ => .test
  | .start, _ => .threadStart
  | _, .semPost => .semPost
  | _, .lock => .workerLock
  | _, .set => .setLoop
  | _, .notify => .notifyOne
  | _, .unlock => .workerUnlock
  | _, .looping => .loopReturn
  | _, .relock => .workerRelock
  | _, .clear => .clearLoop
  | .semWait, _ => .semWait
  | _, _ => .ownerLock

theorem enabled_goesOn {owner : Owner} {worker : Worker} (htogether : together owner worker = true)
    (hmore : ¬(worker = .finished ∧ (owner = .returned ∨ owner = .asleep)))
    : (meeting owner worker).enabled (goesOn owner worker) = true ∧ goesOn owner worker ≠ .spuriousWakeup := by
  cases owner <;> cases worker <;>
    first
    | exact absurd htogether Bool.false_ne_true
    | exact absurd (by decide) hmore
    | exact ⟨rfl, by decide⟩

theorem Inv.stuck_iff (h : s.Inv)
    : (∀ a, a ≠ .spuriousWakeup → s.enabled a = false)
        ↔ s.worker = .finished ∧ (s.owner = .returned ∨ s.owner = .asleep) := by
  obtain ⟨heq, htogether⟩ := h
  constructor
  . intro hstuck
    by_contra hmore
    obtain ⟨henabled, hne⟩ := enabled_goesOn htogether hmore
    rw [← heq, hstuck _ hne] at henabled
    cases henabled
  . rintro ⟨hworker, howner⟩ a ha
    rw [heq, hworker]
    obtain howner | howner := howner <;> rw [howner] <;> cases a <;> first | rfl | exact absurd rfl ha

/--
While the loop runs the owner is not asleep and its own steps bring it out of `startLoop`, and the two get stuck
only when the loop has returned: behind the return of `startLoop`, or with an owner that has come too late.
-/
theorem startLoop_returns (s : Handshake) (h : system.Reachable s)
    : (s.worker = .looping → s.owner ≠ .asleep
          ∧ ∃ s', system.run s (rest s.owner) = some s' ∧ s'.owner = .returned)
        ∧ (s.owner = .asleep → s.loop_ = true → s.worker = .notify)
        ∧ ((∀ a, a ≠ .spuriousWakeup → s.enabled a = false)
          ↔ s.worker = .finished ∧ (s.owner = .returned ∨ s.owner = .asleep)) := by
  have hinv := inv_reachable h
  exact ⟨fun hlooping => hinv.returns (.inl hlooping), hinv.asleep, hinv.stuck_iff⟩

-- the owner sleeps before the worker has the mutex
def sleptEarly : Handshake :=
  (system.run initial [.threadStart, .semPost, .semWait, .ownerLock, .test, .workerLock, .setLoop, .notifyOne,
    .workerUnlock]).get rfl

theorem startLoop_returns_sleptEarly
    : sleptEarly.owner = .woken
        ∧ ∃ s', system.run sleptEarly (rest sleptEarly.owner) = some s' ∧ s'.owner = .returned := by
  have hreachable : system.Reachable sleptEarly := LTS.Reachable.run (.init rfl) (Option.some_get _).symm
  exact ⟨rfl, ((startLoop_returns sleptEarly hreachable).1 rfl).2⟩

-- a functor that `callback_` has queued calls `quit`, and the loop has returned before the owner has the mutex
theorem startLoop_never_returns
    : ∃ s, system.Reachable s ∧ s.owner = .asleep ∧ ∀ a, a ≠ .spuriousWakeup → s.enabled a = false := by
  have hrun : system.run initial [.threadStart, .semPost, .semWait, .workerLock, .setLoop, .notifyOne,
      .workerUnlock, .loopReturn, .workerRelock, .clearLoop, .ownerLock, .test] = some _ := rfl
  have hreachable : system.Reachable _ := LTS.Reachable.run (.init rfl) hrun
  exact ⟨_, hreachable, rfl, (inv_reachable hreachable).stuck_iff.mpr ⟨rfl, .inr rfl⟩⟩

end Handshake

end EventLoopThread

end MyMuduo
