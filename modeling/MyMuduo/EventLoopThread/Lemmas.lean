import MyMuduo.EventLoopThread.Basic

/-!
This module contains what a call of `quit` by the owner of a loop thread achieves: it is kept when it
comes after `loop` has reset `quit_`, and lost when it comes before.
-/

namespace MyMuduo

namespace EventLoopThread

open EventLoop (Threads)

variable {φ τ : Type}

-- the `EventLoop` object exists
def WorkerPc.hasObject : WorkerPc → Bool
  | .callback | .published | .looping | .returned | .cleared => true
  | _ => false

-- `loop_` points to it
def WorkerPc.hasLoop : WorkerPc → Bool
  | .published | .looping | .returned => true
  | _ => false

def WorkerPc.beforeLoop : WorkerPc → Bool
  | .notStarted | .started | .callback | .published => true
  | _ => false

def WorkerPc.afterLoop : WorkerPc → Bool
  | .returned | .cleared | .finished => true
  | _ => false

-- the owner has the loop and has not called `quit` on it
def OwnerPc.holdsLoop : OwnerPc → Bool
  | .running | .destroying | .calling => true
  | _ => false

def OwnerPc.beforeQuit : OwnerPc → Bool
  | .constructed | .waiting | .running | .destroying | .calling => true
  | _ => false

-- the owner is past the store of `quit` and not yet past `join`
def OwnerPc.calledQuit : OwnerPc → Bool
  | .quitting | .joining => true
  | _ => false

/--
What holds in every interleaving: only the owner's call of `quit` lets the worker leave the loop, so
the loop exists when that call is made.
-/
structure Inv (s : State φ τ) : Prop where
  object : s.threads.isSome = s.worker.hasObject
  loop : s.loop = s.worker.hasLoop
  outside : ∀ threads, s.threads = some threads → s.worker.beforeLoop = true →
    threads.pc = .outside
  exited : ∀ threads, s.threads = some threads → s.worker = .looping → threads.pc = .outside →
    s.quitCalled = true
  quit_ : ∀ threads, s.threads = some threads → threads.loop.quit_ = true → s.quitCalled = true
  afterLoop : s.worker.afterLoop = true → s.quitCalled = true
  beforeQuit : s.owner.beforeQuit = true → s.quitCalled = false
  constructed : s.owner = .constructed → s.worker = .notStarted
  holdsLoop : s.owner.holdsLoop = true → s.worker.hasLoop = true
  danglingQuit : s.danglingQuit = false

theorem Inv.init : Inv (initial : State φ τ) := by
  constructor <;> simp [initial, WorkerPc.hasObject, WorkerPc.hasLoop, WorkerPc.afterLoop,
    OwnerPc.holdsLoop]

theorem WorkerPc.hasObject_of_hasLoop {w : WorkerPc} (h : w.hasLoop = true) : w.hasObject = true := by
  cases w <;> simp_all [hasLoop, hasObject]

theorem OwnerPc.beforeQuit_of_holdsLoop {o : OwnerPc} (h : o.holdsLoop = true)
    : o.beforeQuit = true := by
  cases o <;> simp_all [holdsLoop, beforeQuit]

/--
The owner's `quit` is kept: at most one poll begins after it, the owner is not left in `join` with a
worker that polls and will poll again, and the call was made on an existing loop.
-/
structure QuitKept (s : State φ τ) : Prop where
  polls : s.pollsSinceQuit ≤ 1
  joining : ∀ threads, s.owner = .joining → s.threads = some threads → threads.pc = .polling →
    threads.loop.quit_ = true
  danglingQuit : s.danglingQuit = false

/--
`quit` stores to `quit_` only after `loop` has executed its own `quit_ = false`.
-/
def quitAfterReset (s : State φ τ) : Label φ τ → Prop
  | .quit => ∀ threads, s.threads = some threads → s.worker = .looping ∧ threads.pc ≠ .entered
  | _ => True

/--
Once `quit` has been called `quit_` stays `true`, and the one poll that may still begin is that of an
iteration whose test came before the call.
-/
structure KeptInv (s : State φ τ) : Prop extends Inv s where
  kept : s.quitCalled = true → ∀ threads, s.threads = some threads →
    threads.loop.quit_ = true ∧ threads.pc ≠ .entered
  entered : s.quitCalled = true → s.worker.beforeLoop = false
  called : s.owner.calledQuit = true → s.quitCalled = true
  polls : s.pollsSinceQuit ≤ 1
  notCalled : s.quitCalled = false → s.pollsSinceQuit = 0
  aboutToPoll : ∀ threads, s.threads = some threads → threads.pc = .aboutToPoll →
    s.pollsSinceQuit = 0

theorem KeptInv.init : KeptInv (initial : State φ τ) :=
  { Inv.init with
    kept := by simp [initial]
    entered := by simp [initial]
    called := by simp [initial, OwnerPc.calledQuit]
    polls := by simp [initial]
    notCalled := fun _ => rfl
    aboutToPoll := fun _ _ _ => rfl }

theorem KeptInv.quitKept {s : State φ τ} (h : KeptInv s) : QuitKept s where
  polls := h.polls
  joining := fun threads howner hthreads _ => (h.kept (h.called (by rw [howner]; rfl)) threads hthreads).1
  danglingQuit := h.danglingQuit

theorem KeptInv.not_called {s : State φ τ} (h : KeptInv s) (hworker : s.worker.beforeLoop = true)
    : s.quitCalled = false := by
  cases hcalled : s.quitCalled with
  | false => rfl
  | true =>
    have := h.entered hcalled
    simp [hworker] at this

variable [DecidableEq τ]

/--
The invariant after a step of the loop that neither enters it nor stores to `quit_` from outside.
-/
theorem Inv.loop_step {s : State φ τ} (h : Inv s) {threads threads' : Threads φ (Option τ)}
    {a : EventLoop.Label φ (Option τ)} (hthreads : s.threads = some threads)
    (hstep : (Threads.system φ (Option τ)).step threads a = some threads') (henter : a ≠ .enter)
    (hquit : ∀ t, a ≠ .quit t) (owner : OwnerPc) (pollsSinceQuit : Nat)
    (hbefore : owner.beforeQuit = true → s.quitCalled = false)
    (hconstructed : owner = .constructed → s.worker = .notStarted)
    (hholds : owner.holdsLoop = true → s.worker.hasLoop = true)
    : Inv
        { s with
            owner := owner, threads := some threads', pollsSinceQuit := pollsSinceQuit } := by
  have hcontrol := EventLoop.Threads.step_control hstep henter hquit
  exact
    { h with
      object := by
        rw [← h.object, hthreads]
        rfl
      outside := by
        rintro _ ⟨rfl⟩ hworker
        have hpc := h.outside threads hthreads hworker
        rcases hcontrol with ⟨_, hentered, _⟩ | ⟨_, houtside, _⟩
        . simp [hpc] at hentered
        . exact (houtside.mp hpc).1
      exited := by
        rintro _ ⟨rfl⟩ hworker hpc
        rcases hcontrol with ⟨_, _, htest, _⟩ | ⟨_, houtside, _⟩
        . simp [hpc] at htest
        . by_cases hseen : threads.pc = .test ∧ threads.loop.quit_ = true
          . exact h.quit_ threads hthreads hseen.2
          . exact h.exited threads hthreads hworker (houtside.mpr ⟨hpc, hseen⟩)
      quit_ := by
        rintro _ ⟨rfl⟩ hseen
        rcases hcontrol with ⟨_, _, _, hcleared⟩ | ⟨hsame, _⟩
        . simp [hcleared] at hseen
        . exact h.quit_ threads hthreads (hsame ▸ hseen)
      beforeQuit := hbefore
      constructed := hconstructed
      holdsLoop := hholds }

theorem Inv.step {s s' : State φ τ} {a : Label φ τ} (h : Inv s)
    (hstep : (system φ τ).step s a = some s') : Inv s' := by
  obtain ⟨henabled, hnext⟩ := LTS.guarded_step.mp hstep
  cases a with
  | startLoop =>
    simp only [next, Option.some.injEq] at hnext
    subst hnext
    simp only [enabled, decide_eq_true_eq] at henabled
    have hworker := h.constructed henabled
    exact
      { h with
        object := by rw [h.object, hworker]; rfl
        loop := by rw [h.loop, hworker]; rfl
        outside := fun threads hthreads _ => h.outside threads hthreads (by rw [hworker]; rfl)
        exited := by simp
        afterLoop := by simp [WorkerPc.afterLoop]
        beforeQuit := fun _ => h.beforeQuit (by rw [henabled]; rfl)
        constructed := by simp
        holdsLoop := by simp [OwnerPc.holdsLoop] }
  | startLoopReturn =>
    simp only [next, Option.some.injEq] at hnext
    subst hnext
    simp only [enabled, Bool.and_eq_true, decide_eq_true_eq] at henabled
    exact
      { h with
        beforeQuit := fun _ => h.beforeQuit (by rw [henabled.1]; rfl)
        constructed := by simp
        holdsLoop := fun _ => h.loop ▸ henabled.2 }
  | destroy =>
    simp only [next, Option.some.injEq] at hnext
    subst hnext
    simp only [enabled, Bool.and_eq_true, decide_eq_true_eq] at henabled
    exact
      { h with
        beforeQuit := fun _ => h.beforeQuit (by rw [henabled.1]; rfl)
        constructed := by simp
        holdsLoop := fun _ => h.holdsLoop (by rw [henabled.1]; rfl) }
  | readLoop =>
    simp only [next, Option.some.injEq] at hnext
    subst hnext
    simp only [enabled, decide_eq_true_eq] at henabled
    have hloop : s.loop = true := by
      rw [h.loop]
      apply h.holdsLoop
      rw [henabled]
      rfl
    simp only [hloop, if_true]
    exact
      { h with
        loop := hloop ▸ h.loop
        beforeQuit := fun _ => h.beforeQuit (by rw [henabled]; rfl)
        constructed := by simp
        holdsLoop := fun _ => h.holdsLoop (by rw [henabled]; rfl) }
  | quit =>
    simp only [enabled, decide_eq_true_eq] at henabled
    have hobject : s.threads.isSome = true := by
      rw [h.object]
      apply WorkerPc.hasObject_of_hasLoop
      apply h.holdsLoop
      rw [henabled]
      rfl
    obtain ⟨threads, hthreads⟩ := Option.isSome_iff_exists.mp hobject
    simp only [next, hthreads, Option.map_eq_some_iff] at hnext
    obtain ⟨threads', hquit, rfl⟩ := hnext
    have hpc := (EventLoop.Threads.step_quit hquit).2
    exact
      { h with
        object := by
          rw [← h.object, hthreads]
          rfl
        outside := by
          rintro _ ⟨rfl⟩ hworker
          rw [hpc]
          exact h.outside threads hthreads hworker
        exited := fun _ _ _ _ => rfl
        quit_ := fun _ _ _ => rfl
        afterLoop := fun _ => rfl
        beforeQuit := by simp [OwnerPc.beforeQuit]
        constructed := by simp
        holdsLoop := by simp [OwnerPc.holdsLoop] }
  | quitWakeup =>
    simp only [enabled, decide_eq_true_eq] at henabled
    simp only [next] at hnext
    split at hnext
    . simp only [Option.some.injEq] at hnext
      subst hnext
      exact
        { h with
          beforeQuit := by simp [OwnerPc.beforeQuit]
          constructed := by simp
          holdsLoop := by simp [OwnerPc.holdsLoop] }
    . next threads hthreads =>
      simp only [Option.map_eq_some_iff] at hnext
      obtain ⟨threads', hwakeup, rfl⟩ := hnext
      apply h.loop_step hthreads hwakeup
      . simp
      . simp
      . simp [OwnerPc.beforeQuit]
      . simp
      . simp [OwnerPc.holdsLoop]
  | join =>
    simp only [next, Option.some.injEq] at hnext
    subst hnext
    exact
      { h with
        beforeQuit := by simp [OwnerPc.beforeQuit]
        constructed := by simp
        holdsLoop := by simp [OwnerPc.holdsLoop] }
  | construct evtfd wakeupChannel =>
    simp only [next, Option.map_eq_some_iff] at hnext
    obtain ⟨loop, hnew, rfl⟩ := hnext
    simp only [enabled, decide_eq_true_eq] at henabled
    exact
      { h with
        object := rfl
        loop := by rw [h.loop, henabled]; rfl
        outside := by
          rintro _ ⟨rfl⟩ _
          rfl
        exited := by simp
        quit_ := by
          rintro _ ⟨rfl⟩ hseen
          rw [EventLoop.Threads.initial, EventLoop.quit_new hnew] at hseen
          simp at hseen
        afterLoop := by simp [WorkerPc.afterLoop]
        constructed := fun howner => absurd (h.constructed howner) (by simp [henabled])
        holdsLoop := fun howner => absurd (h.holdsLoop howner) (by simp [henabled, WorkerPc.hasLoop]) }
  | publish =>
    simp only [next, Option.some.injEq] at hnext
    subst hnext
    simp only [enabled, decide_eq_true_eq] at henabled
    exact
      { h with
        object := by rw [h.object, henabled]; rfl
        loop := rfl
        outside := fun threads hthreads _ => h.outside threads hthreads (by rw [henabled]; rfl)
        exited := by simp
        afterLoop := by simp [WorkerPc.afterLoop]
        constructed := fun howner => absurd (h.constructed howner) (by simp [henabled])
        holdsLoop := fun _ => rfl }
  | enterLoop =>
    simp only [next, Option.bind_eq_some_iff, Option.map_eq_some_iff] at hnext
    obtain ⟨threads, hthreads, threads', henter, rfl⟩ := hnext
    simp only [enabled, decide_eq_true_eq] at henabled
    have hentered := EventLoop.Threads.step_enter henter
    exact
      { h with
        object := rfl
        loop := by rw [h.loop, henabled]; rfl
        outside := by simp [WorkerPc.beforeLoop]
        exited := by
          rintro _ ⟨rfl⟩ _ hpc
          simp [hentered.2] at hpc
        quit_ := by
          rintro _ ⟨rfl⟩ hseen
          exact h.quit_ threads hthreads (hentered.1 ▸ hseen)
        afterLoop := by simp [WorkerPc.afterLoop]
        constructed := fun howner => absurd (h.constructed howner) (by simp [henabled])
        holdsLoop := fun _ => rfl }
  | loop a =>
    simp only [next, Option.bind_eq_some_iff, Option.map_eq_some_iff] at hnext
    obtain ⟨threads, hthreads, threads', hloop, rfl⟩ := hnext
    apply h.loop_step hthreads hloop
    . rintro rfl
      simp [enabled, mayStep] at henabled
    . rintro t rfl
      simp [enabled, mayStep] at henabled
    . exact h.beforeQuit
    . exact h.constructed
    . exact h.holdsLoop
  | loopReturn =>
    simp only [next, Option.some.injEq] at hnext
    subst hnext
    simp only [enabled, Bool.and_eq_true, decide_eq_true_eq] at henabled
    have hobject : s.threads.isSome = true := by
      rw [h.object, henabled.1]
      rfl
    obtain ⟨threads, hthreads⟩ := Option.isSome_iff_exists.mp hobject
    have hpc : threads.pc = .outside := by simpa [hthreads] using henabled.2
    exact
      { h with
        object := by rw [h.object, henabled.1]; rfl
        loop := by rw [h.loop, henabled.1]; rfl
        outside := by simp [WorkerPc.beforeLoop]
        exited := by simp
        afterLoop := fun _ => h.exited threads hthreads henabled.1 hpc
        constructed := fun howner => absurd (h.constructed howner) (by simp [henabled.1])
        holdsLoop := fun _ => rfl }
  | clearLoop =>
    simp only [next, Option.some.injEq] at hnext
    subst hnext
    simp only [enabled, decide_eq_true_eq] at henabled
    have hcalled : s.quitCalled = true := h.afterLoop (by rw [henabled]; rfl)
    exact
      { h with
        object := by rw [h.object, henabled]; rfl
        loop := rfl
        outside := by simp [WorkerPc.beforeLoop]
        exited := by simp
        afterLoop := fun _ => hcalled
        constructed := fun howner => absurd (h.constructed howner) (by simp [henabled])
        holdsLoop := by
          -- the owner has called `quit`, or the loop would not have returned
          intro howner
          have := h.beforeQuit (OwnerPc.beforeQuit_of_holdsLoop howner)
          simp [hcalled] at this }
  | destroyLoop =>
    simp only [next, Option.some.injEq] at hnext
    subst hnext
    simp only [enabled, decide_eq_true_eq] at henabled
    exact
      { h with
        object := rfl
        loop := by rw [h.loop, henabled]; rfl
        outside := by simp
        exited := by simp
        quit_ := by simp
        afterLoop := fun _ => h.afterLoop (by rw [henabled]; rfl)
        constructed := fun howner => absurd (h.constructed howner) (by simp [henabled])
        holdsLoop := fun howner => absurd (h.holdsLoop howner) (by simp [henabled, WorkerPc.hasLoop]) }

theorem inv_of_reachable {s : State φ τ} (h : (system φ τ).Reachable s) : Inv s :=
  LTS.Reachable.invariant Inv (fun _ hinit => hinit ▸ Inv.init) (fun _ _ _ => Inv.step) h

/--
A step of the loop, as in `Inv.loop_step`: it keeps `quit_`, and the poll it may begin is the first one
since the call.
-/
theorem KeptInv.loop_step {s : State φ τ} (h : KeptInv s) {threads threads' : Threads φ (Option τ)}
    {a : EventLoop.Label φ (Option τ)} (hthreads : s.threads = some threads)
    (hstep : (Threads.system φ (Option τ)).step threads a = some threads') (henter : a ≠ .enter)
    (hquit : ∀ t, a ≠ .quit t)
    : (s.quitCalled = true → threads'.loop.quit_ = true ∧ threads'.pc ≠ .entered)
      ∧ (threads'.pc = .aboutToPoll → s.pollsSinceQuit = 0)
      ∧ (a = .poll → s.pollsSinceQuit = 0 ∧ threads'.pc = .polling) := by
  rcases EventLoop.Threads.step_control hstep henter hquit with
    ⟨rfl, hentered, htest, _⟩ | ⟨hsame, _, hentered, habout, hpoll⟩
  . -- the loop resets `quit_`, so `quit` has not been called yet
    refine ⟨?_, by simp [htest], by simp⟩
    intro hcalled
    exact absurd hentered (h.kept hcalled threads hthreads).2
  . refine ⟨?_, ?_, ?_⟩
    . intro hcalled
      have hkept := h.kept hcalled threads hthreads
      rw [hsame]
      exact ⟨hkept.1, fun hpc => hkept.2 (hentered.mpr hpc)⟩
    . intro hpc
      cases habout hpc with
      | inl hbefore => exact h.aboutToPoll threads hthreads hbefore
      | inr hunset =>
        apply h.notCalled
        cases hcalled : s.quitCalled with
        | false => rfl
        | true =>
          have := (h.kept hcalled threads hthreads).1
          simp [hunset] at this
    . intro ha
      have hpc := hpoll ha
      exact ⟨h.aboutToPoll threads hthreads hpc.1, hpc.2⟩

theorem KeptInv.step {s s' : State φ τ} {a : Label φ τ} (h : KeptInv s) (hok : quitAfterReset s a)
    (hstep : (system φ τ).step s a = some s') : KeptInv s' := by
  have hinv := h.toInv.step hstep
  obtain ⟨henabled, hnext⟩ := LTS.guarded_step.mp hstep
  cases a with
  | startLoop =>
    simp only [next, Option.some.injEq] at hnext
    subst hnext
    simp only [enabled, decide_eq_true_eq] at henabled
    have hnot := h.beforeQuit (by rw [henabled]; rfl)
    exact
      { hinv, h with
        entered := by simp [hnot]
        called := by simp [OwnerPc.calledQuit] }
  | startLoopReturn | destroy | join =>
    simp only [next, Option.some.injEq] at hnext
    subst hnext
    exact { hinv, h with called := by simp [OwnerPc.calledQuit] }
  | readLoop =>
    simp only [next, Option.some.injEq] at hnext
    subst hnext
    exact
      { hinv, h with
        called := by
          intro howner
          dsimp only at howner
          split at howner <;> simp [OwnerPc.calledQuit] at howner }
  | quit =>
    simp only [enabled, decide_eq_true_eq] at henabled
    have hnot := h.notCalled (h.beforeQuit (by rw [henabled]; rfl))
    simp only [next] at hnext
    split at hnext
    . simp only [Option.some.injEq] at hnext
      subst hnext
      simpa using hinv.danglingQuit
    . next threads hthreads =>
      simp only [Option.map_eq_some_iff] at hnext
      obtain ⟨threads', hquit, rfl⟩ := hnext
      have hstored := EventLoop.Threads.step_quit hquit
      obtain ⟨hworker, hreset⟩ := hok threads hthreads
      exact
        { hinv with
          kept := by
            rintro _ _ ⟨rfl⟩
            exact ⟨hstored.1, hstored.2 ▸ hreset⟩
          entered := by simp [hworker, WorkerPc.beforeLoop]
          called := fun _ => rfl
          polls := h.polls
          notCalled := by simp
          aboutToPoll := fun _ _ _ => hnot }
  | quitWakeup =>
    simp only [enabled, decide_eq_true_eq] at henabled
    have hcalled : s.quitCalled = true := h.called (by rw [henabled]; rfl)
    simp only [next] at hnext
    split at hnext
    . simp only [Option.some.injEq] at hnext
      subst hnext
      exact { hinv, h with called := fun _ => hcalled }
    . next threads hthreads =>
      simp only [Option.map_eq_some_iff] at hnext
      obtain ⟨threads', hwakeup, rfl⟩ := hnext
      obtain ⟨hkept, hpolls, _⟩ := h.loop_step hthreads hwakeup (by simp) (by simp)
      exact
        { hinv, h with
          kept := by
            rintro _ _ ⟨rfl⟩
            exact hkept hcalled
          called := fun _ => hcalled
          aboutToPoll := by
            rintro _ ⟨rfl⟩
            exact hpolls }
  | construct evtfd wakeupChannel =>
    simp only [next, Option.map_eq_some_iff] at hnext
    obtain ⟨loop, _, rfl⟩ := hnext
    simp only [enabled, decide_eq_true_eq] at henabled
    have hnot : s.quitCalled = false := h.not_called (by rw [henabled]; rfl)
    exact
      { hinv, h with
        kept := by simp [hnot]
        entered := by simp [hnot]
        aboutToPoll := fun _ _ _ => h.notCalled hnot }
  | publish =>
    simp only [next, Option.some.injEq] at hnext
    subst hnext
    simp only [enabled, decide_eq_true_eq] at henabled
    have hnot : s.quitCalled = false := h.not_called (by rw [henabled]; rfl)
    exact { hinv, h with entered := by simp [hnot] }
  | enterLoop =>
    simp only [next, Option.bind_eq_some_iff, Option.map_eq_some_iff] at hnext
    obtain ⟨threads, hthreads, threads', henter, rfl⟩ := hnext
    simp only [enabled, decide_eq_true_eq] at henabled
    have hnot : s.quitCalled = false := h.not_called (by rw [henabled]; rfl)
    exact
      { hinv, h with
        kept := by simp [hnot]
        entered := by simp [hnot]
        aboutToPoll := fun _ _ _ => h.notCalled hnot }
  | loop a =>
    simp only [next, Option.bind_eq_some_iff, Option.map_eq_some_iff] at hnext
    obtain ⟨threads, hthreads, threads', hloop, rfl⟩ := hnext
    have henter : a ≠ .enter := by
      rintro rfl
      simp [enabled, mayStep] at henabled
    have hquit : ∀ t, a ≠ .quit t := by
      rintro t rfl
      simp [enabled, mayStep] at henabled
    obtain ⟨hkept, habout, hpoll⟩ := h.loop_step hthreads hloop henter hquit
    exact
      { hinv, h with
        kept := by
          rintro hcalled _ ⟨rfl⟩
          exact hkept hcalled
        polls := by
          have := h.polls
          dsimp only
          split
          . have := (hpoll rfl).1
            split <;> omega
          . exact h.polls
        notCalled := by
          intro hnot
          dsimp only at hnot
          have := h.notCalled hnot
          dsimp only
          split
          . simpa [hnot] using this
          . exact this
        aboutToPoll := by
          rintro _ ⟨rfl⟩ hpc
          have := habout hpc
          dsimp only
          split
          . simp [(hpoll rfl).2] at hpc
          . exact this }
  | loopReturn | clearLoop =>
    simp only [next, Option.some.injEq] at hnext
    subst hnext
    exact { hinv, h with entered := by simp [WorkerPc.beforeLoop] }
  | destroyLoop =>
    simp only [next, Option.some.injEq] at hnext
    subst hnext
    exact
      { hinv, h with
        kept := by simp
        entered := by simp [WorkerPc.beforeLoop]
        aboutToPoll := by simp }

theorem quit_kept {s : State φ τ} (h : (system φ τ).ReachableBy quitAfterReset s) : QuitKept s :=
  (LTS.ReachableBy.invariant KeptInv (fun _ hinit => hinit ▸ KeptInv.init) (fun _ _ _ => KeptInv.step)
    h).quitKept

-- the store of `quit` may end the worker before the same call comes to its `wakeup`
example : (((system Unit Unit).run initial
    [.startLoop, .construct 3 1, .publish, .startLoopReturn, .destroy, .readLoop, .enterLoop, .loop .clearQuit,
      .quit, .loop .test, .loopReturn, .clearLoop, .destroyLoop, .quitWakeup]).any (·.danglingWakeup)) = true := by
  rfl

-- the owner gets the loop and begins its destructor while the worker makes its first test
def untilTested : List (Label Unit Unit) :=
  [.startLoop, .construct 3 1, .publish, .startLoopReturn, .destroy, .readLoop, .enterLoop,
    .loop .clearQuit, .loop .test]

def tested : State Unit Unit :=
  ((system Unit Unit).run initial untilTested).get (by rfl)

/--
A call of `quit` after that test: one more poll begins.
-/
theorem quit_kept_afterTest
    : ∃ s s', (system Unit Unit).step tested .quit = some s
        ∧ (system Unit Unit).run s [.quitWakeup, .loop .poll] = some s'
        ∧ s'.owner = .joining ∧ s'.pollsSinceQuit = 1 ∧ QuitKept s' := by
  have htested : (system Unit Unit).ReachableBy quitAfterReset tested := by
    apply LTS.ReachableBy.run untilTested (.init rfl)
    . simp [untilTested, quitAfterReset]
    . exact (Option.some_get _).symm
  have hok : quitAfterReset tested .quit := by
    rintro _ ⟨rfl⟩
    exact ⟨rfl, by decide⟩
  refine ⟨_, _, rfl, rfl, rfl, rfl, ?_⟩
  apply quit_kept
  apply LTS.ReachableBy.run [.quitWakeup, .loop .poll] (.step htested hok rfl)
  . simp [quitAfterReset]
  . rfl

-- a call of `quit` between the publication of the loop and `quit_ = false` in `loop`
def quitBeforeReset : List (Label Unit Unit) :=
  [.startLoop, .construct 3 1, .publish, .startLoopReturn, .destroy, .readLoop, .quit, .quitWakeup,
    .enterLoop, .loop .clearQuit, .loop .test, .loop .poll, .loop (.pollReturn [1]), .loop .dispatch,
    .loop .startCalling, .loop .swap, .loop .endCalling, .loop .test, .loop .poll]

/--
The request is overwritten: the wakeup ends the first poll, and the worker begins a second one that
nothing will end, with the owner waiting for it in `join`.
-/
theorem quit_lost
    : ∃ s, (system Unit Unit).Reachable s ∧ s.owner = .joining ∧ s.pollsSinceQuit = 2
        ∧ (∃ threads, s.threads = some threads ∧ threads.pc = .polling
          ∧ threads.loop.quit_ = false ∧ threads.loop.wakeupFd = 0)
        ∧ ¬QuitKept s := by
  have h : (system Unit Unit).run initial quitBeforeReset = some _ := rfl
  refine ⟨_, LTS.Reachable.run (.init rfl) h, rfl, rfl, ⟨_, rfl, rfl, rfl, rfl⟩, ?_⟩
  intro hkept
  exact absurd hkept.polls (by decide)

end EventLoopThread

end MyMuduo
