import MyMuduo.TcpServer.Balance

/-!
This module contains `start()`, called by any threads, with the start of the thread pool and the acceptor that
listens behind it: the server accepts nothing before its pool is complete.
-/

namespace MyMuduo

namespace TcpServer

-- where a thread is in `start()`
inductive Starter where
  | idle
  -- in `EventLoopThreadPool::start`, in front of `i < numThreads_`
  | threads (i : Nat)
  -- in `startLoop` of a thread of the pool
  | startLoop (i thread : Nat)
  -- in front of `runInLoop`
  | runInLoop
  deriving DecidableEq, Repr

/--
Thread 0 is that of the base loop. `threads_` says of each thread of the pool whether it has published its loop,
and `loops_` names a loop by its thread. `pending` counts the functors `Acceptor::listen` on the base loop. The
last four fields are history: the calls of `start()`, the loops that `threadInitCallback_` has got, where
`none` is the base loop, the calls of `listen`, and the loops that connections were given to. A negative
`numThreads_`, an `int`, is left out.
-/
structure Startup where
  started_ : UInt32
  callers : Nat → Starter
  numThreads_ : Nat
  threadInitCallback_ : Bool
  threads_ : List Bool
  loops_ : List Nat
  next_ : Nat
  pending : Nat
  calls : Nat
  inits : List (Option Nat)
  listens : Nat
  given : List Nat

namespace Startup

inductive Label where
  | start (t : Nat)
  | newThread (t : Nat)
  -- the thread has called `threadInitCallback_` and publishes its loop
  | publish (thread : Nat)
  -- `startLoop` returns
  | startLoop (t : Nat)
  | endThreads (t : Nat)
  | runInLoop (t : Nat)
  | runFunctor
  -- `handleRead` of the acceptor
  | handleRead

def Constructed (s : Startup) : Prop :=
  s.started_ = 0 ∧ (∀ t, s.callers t = .idle) ∧ s.threads_ = [] ∧ s.loops_ = [] ∧ s.next_ = 0 ∧ s.pending = 0
    ∧ s.calls = 0 ∧ s.inits = [] ∧ s.listens = 0 ∧ s.given = []

def setCaller (s : Startup) (t : Nat) (pc : Starter) : Startup :=
  { s with callers := Function.update s.callers t pc }

-- `if (callback_) callback_(loop)`
def init (s : Startup) (loop : Option Nat) : Startup :=
  { s with inits := if s.threadInitCallback_ then s.inits ++ [loop] else s.inits }

def pool (s : Startup) : EventLoopThreadPool :=
  ⟨s.loops_.length, s.next_⟩

def listen (s : Startup) : Startup :=
  { s with listens := s.listens + 1 }

def next (s : Startup) : Label → Option Startup
  | .start t =>
    if s.callers t = .idle then
      let old := s.started_
      let s := { s with started_ := s.started_ + 1, calls := s.calls + 1 }
      some (if old = 0 then s.setCaller t (.threads 0) else s)
    else
      none
  | .newThread t =>
    match s.callers t with
    | .threads i =>
      if i < s.numThreads_ then
        some ({ s with threads_ := s.threads_ ++ [false] }.setCaller t (.startLoop i s.threads_.length))
      else
        none
    | _ => none
  | .publish thread =>
    if s.threads_[thread]? = some false then
      some ({ s with threads_ := s.threads_.set thread true }.init (some thread))
    else
      none
  | .startLoop t =>
    match s.callers t with
    | .startLoop i thread =>
      if s.threads_[thread]? = some true then
        some ({ s with loops_ := s.loops_ ++ [thread] }.setCaller t (.threads (i + 1)))
      else
        none
    | _ => none
  | .endThreads t =>
    match s.callers t with
    | .threads i =>
      if i < s.numThreads_ then
        none
      else
        let s := if s.numThreads_ = 0 then s.init none else s
        some (s.setCaller t .runInLoop)
    | _ => none
  | .runInLoop t =>
    if s.callers t = .runInLoop then
      some ((if t = 0 then s.listen else { s with pending := s.pending + 1 }).setCaller t .idle)
    else
      none
  | .runFunctor =>
    if s.callers 0 = .idle ∧ 0 < s.pending then
      some { s with pending := s.pending - 1 }.listen
    else
      none
  | .handleRead =>
    if s.callers 0 = .idle ∧ 0 < s.listens then
      let (loop, pool) := s.pool.getNextLoop
      some { s with next_ := pool.next_, given := s.given ++ [loop] }
    else
      none

def system : LTS Startup Label where
  init := Constructed
  step := next

-- the calls of `threadInitCallback_` for the first `n` threads
def initsOf (s : Startup) (n : Nat) : List (Option Nat) :=
  if s.threadInitCallback_ then (List.range n).map some else []

-- the calls of a pool that has been started
def allInits (s : Startup) : List (Option Nat) :=
  if s.numThreads_ = 0 then
    if s.threadInitCallback_ then [none] else []
  else
    s.initsOf s.numThreads_

/--
Only `t` is in `start()`, if any thread is.
-/
def Only (s : Startup) (t : Nat) (pc : Starter) : Prop :=
  ∀ t', s.callers t' = if t' = t then pc else .idle

structure Complete (s : Startup) : Prop where
  threads_ : s.threads_ = List.replicate s.numThreads_ true
  loops_ : s.loops_ = List.range s.numThreads_
  inits : s.inits = s.allInits

-- nothing listens and nothing has been accepted
structure Silent (s : Startup) : Prop where
  next_ : s.next_ = 0
  pending : s.pending = 0
  listens : s.listens = 0
  given : s.given = []

/--
How far the start has come.
-/
inductive Stage (s : Startup) : Prop where
  | constructed (callers : ∀ t, s.callers t = .idle) (calls : s.calls = 0) (threads_ : s.threads_ = [])
    (loops_ : s.loops_ = []) (inits : s.inits = []) (silent : s.Silent)
  | threads (t i : Nat) (only : s.Only t (.threads i)) (calls : 0 < s.calls) (le : i ≤ s.numThreads_)
    (threads_ : s.threads_ = List.replicate i true) (loops_ : s.loops_ = List.range i)
    (inits : s.inits = s.initsOf i) (silent : s.Silent)
  | startLoop (t i : Nat) (published : Bool) (only : s.Only t (.startLoop i i)) (calls : 0 < s.calls)
    (lt : i < s.numThreads_) (threads_ : s.threads_ = List.replicate i true ++ [published])
    (loops_ : s.loops_ = List.range i) (inits : s.inits = s.initsOf (if published then i + 1 else i))
    (silent : s.Silent)
  | runInLoop (t : Nat) (only : s.Only t .runInLoop) (calls : 0 < s.calls) (complete : s.Complete)
    (silent : s.Silent)
  | queued (callers : ∀ t, s.callers t = .idle) (calls : 0 < s.calls) (complete : s.Complete)
    (next_ : s.next_ = 0) (pending : s.pending = 1) (listens : s.listens = 0) (given : s.given = [])
  | listening (callers : ∀ t, s.callers t = .idle) (calls : 0 < s.calls) (complete : s.Complete)
    (pending : s.pending = 0) (listens : s.listens = 1)
    (next_ : s.next_ = if s.numThreads_ = 0 then 0 else s.given.length % s.numThreads_)
    (given : s.given = (List.range s.given.length).map fun i => dealt s.numThreads_ (i + 1))

structure Inv (s : Startup) : Prop where
  started_ : s.started_ = .ofNat s.calls
  stage : s.Stage

variable {s s' : Startup} {a : Label} {t t' : Nat} {pc pc' : Starter}

theorem Only.self (h : s.Only t pc) : s.callers t = pc := by
  rw [h t, if_pos rfl]

theorem Only.eq (h : s.Only t pc) (hcaller : s.callers t' = pc') (hne : pc' ≠ .idle) : t' = t ∧ pc = pc' := by
  have heq : t' = t := by
    by_contra hother
    rw [h t', if_neg hother] at hcaller
    exact hne hcaller.symm
  rw [heq, h.self] at hcaller
  exact ⟨heq, hcaller⟩

theorem callers_setCaller (s : Startup) (t : Nat) (pc : Starter) (t' : Nat)
    : (s.setCaller t pc).callers t' = if t' = t then pc else s.callers t' :=
  Function.update_apply ..

theorem Only.set (h : s.Only t pc) (pc' : Starter) : (s.setCaller t pc').Only t pc' := by
  intro t'
  rw [callers_setCaller]
  split
  . rfl
  . next hne => rw [h t', if_neg hne]

theorem Only.idle (h : s.Only t pc) (t' : Nat) : (s.setCaller t .idle).callers t' = .idle := by
  rw [h.set .idle t']
  split <;> rfl

theorem only_set (h : ∀ t, s.callers t = .idle) (pc : Starter) : (s.setCaller t pc).Only t pc := by
  intro t'
  rw [callers_setCaller, h t']

/--
Who is in `start()` determines the stage.
-/
theorem Stage.of_threads (h : s.Stage) {i : Nat} (hcaller : s.callers t = .threads i)
    : s.Only t (.threads i) ∧ 0 < s.calls ∧ i ≤ s.numThreads_ ∧ s.threads_ = List.replicate i true
        ∧ s.loops_ = List.range i ∧ s.inits = s.initsOf i ∧ s.Silent := by
  cases h with
  | constructed callers | queued callers | listening callers =>
    rw [callers t] at hcaller
    cases hcaller
  | threads t' j only calls le threads_ loops_ inits silent =>
    obtain ⟨rfl, hpc⟩ := only.eq hcaller (by simp)
    rw [Starter.threads.injEq] at hpc
    subst hpc
    exact ⟨only, calls, le, threads_, loops_, inits, silent⟩
  | startLoop t' j published only | runInLoop t' only =>
    cases (only.eq hcaller (by simp)).2

theorem Stage.of_startLoop (h : s.Stage) {i thread : Nat} (hcaller : s.callers t = .startLoop i thread)
    : s.Only t (.startLoop i i) ∧ thread = i ∧ 0 < s.calls ∧ i < s.numThreads_ ∧ s.loops_ = List.range i
        ∧ s.Silent ∧ ∃ published, s.threads_ = List.replicate i true ++ [published]
          ∧ s.inits = s.initsOf (if published then i + 1 else i) := by
  cases h with
  | constructed callers | queued callers | listening callers =>
    rw [callers t] at hcaller
    cases hcaller
  | startLoop t' j published only calls lt threads_ loops_ inits silent =>
    obtain ⟨rfl, hpc⟩ := only.eq hcaller (by simp)
    rw [Starter.startLoop.injEq] at hpc
    obtain ⟨rfl, rfl⟩ := hpc
    exact ⟨only, rfl, calls, lt, loops_, silent, published, threads_, inits⟩
  | threads t' j only | runInLoop t' only =>
    cases (only.eq hcaller (by simp)).2

theorem Stage.of_runInLoop (h : s.Stage) (hcaller : s.callers t = .runInLoop)
    : s.Only t .runInLoop ∧ 0 < s.calls ∧ s.Complete ∧ s.Silent := by
  cases h with
  | constructed callers | queued callers | listening callers =>
    rw [callers t] at hcaller
    cases hcaller
  | runInLoop t' only calls complete silent =>
    obtain ⟨rfl, _⟩ := only.eq hcaller (by simp)
    exact ⟨only, calls, complete, silent⟩
  | threads t' j only | startLoop t' j published only =>
    cases (only.eq hcaller (by simp)).2

-- a call of `start()` that is not the first
theorem Stage.call (h : s.Stage) (hcalls : 0 < s.calls) (started_ : UInt32)
    : Stage { s with started_ := started_, calls := s.calls + 1 } := by
  have hpos := Nat.succ_pos s.calls
  cases h with
  | constructed _ calls => exact absurd calls (Nat.ne_of_gt hcalls)
  | threads t i only _ le threads_ loops_ inits silent =>
    exact .threads t i only hpos le threads_ loops_ inits ⟨silent.next_, silent.pending, silent.listens, silent.given⟩
  | startLoop t i published only _ lt threads_ loops_ inits silent =>
    exact .startLoop t i published only hpos lt threads_ loops_ inits
      ⟨silent.next_, silent.pending, silent.listens, silent.given⟩
  | runInLoop t only _ complete silent =>
    exact .runInLoop t only hpos ⟨complete.threads_, complete.loops_, complete.inits⟩
      ⟨silent.next_, silent.pending, silent.listens, silent.given⟩
  | queued callers _ complete next_ pending listens given =>
    exact .queued callers hpos ⟨complete.threads_, complete.loops_, complete.inits⟩ next_ pending listens given
  | listening callers _ complete pending listens next_ given =>
    exact .listening callers hpos ⟨complete.threads_, complete.loops_, complete.inits⟩ pending listens next_ given

theorem ofNat_eq_zero {n : Nat} (h : n < 0x100000000) : UInt32.ofNat n = 0 ↔ n = 0 := by
  constructor
  . intro hzero
    have hnat := congrArg UInt32.toNat hzero
    rw [UInt32.toNat_ofNat_of_lt' (by rw [UInt32.size]; omega)] at hnat
    exact hnat
  . rintro rfl
    rfl

theorem Inv.start (h : s.Inv) (hcalls : s.calls + 1 < 0x100000000) (hnext : s.next (.start t) = some s') : s'.Inv := by
  simp only [next] at hnext
  split at hnext
  . next hcaller =>
    have hzero : s.started_ = 0 ↔ s.calls = 0 := by
      rw [h.started_, ofNat_eq_zero (by omega)]
    have hstarted : s.started_ + 1 = .ofNat (s.calls + 1) := by
      rw [h.started_, UInt32.ofNat_add]
      rfl
    rw [Option.some.injEq] at hnext
    subst hnext
    split
    . next hfirst =>
      have hcalls := hzero.mp hfirst
      cases h.stage with
      | constructed callers calls threads_ loops_ inits silent =>
        refine ⟨hstarted, .threads t 0 (only_set callers _) (Nat.succ_pos _) (Nat.zero_le _) threads_ loops_ ?_
          ⟨silent.next_, silent.pending, silent.listens, silent.given⟩⟩
        simp [initsOf, setCaller, inits]
      | threads _ _ _ calls | startLoop _ _ _ _ calls | runInLoop _ _ calls | queued _ calls | listening _ calls =>
        exact absurd hcalls (Nat.ne_of_gt calls)
    . next hagain =>
      have hcalls : 0 < s.calls := Nat.pos_of_ne_zero fun hcalls => hagain (hzero.mpr hcalls)
      exact ⟨hstarted, h.stage.call hcalls _⟩
  . cases hnext

theorem Stage.newThread (h : s.Stage) (hnext : s.next (.newThread t) = some s') : s'.Stage := by
  simp only [next] at hnext
  split at hnext
  . next i hcaller =>
    split at hnext
    . next hmore =>
      rw [Option.some.injEq] at hnext
      subst hnext
      obtain ⟨only, calls, _, threads_, loops_, inits, silent⟩ := h.of_threads hcaller
      have hthread : s.threads_.length = i := by
        rw [threads_, List.length_replicate]
      rw [hthread]
      have honly : Only { s with threads_ := s.threads_ ++ [false] } t (.threads i) := only
      refine .startLoop t i false (honly.set _) calls hmore ?_ loops_ inits
        ⟨silent.next_, silent.pending, silent.listens, silent.given⟩
      change s.threads_ ++ [false] = _
      rw [threads_]
    . cases hnext
  . cases hnext

theorem Stage.publish (h : s.Stage) {thread : Nat} (hnext : s.next (.publish thread) = some s') : s'.Stage := by
  simp only [next] at hnext
  split at hnext
  . next hthread =>
    rw [Option.some.injEq] at hnext
    subst hnext
    have hall : ∀ n, s.threads_ ≠ List.replicate n true := by
      intro n heq
      rw [heq, List.getElem?_replicate] at hthread
      split at hthread <;> cases hthread
    cases h with
    | constructed _ _ threads_ => exact absurd threads_ (hall 0)
    | threads _ i _ _ _ threads_ => exact absurd threads_ (hall i)
    | runInLoop _ _ _ complete | queued _ _ complete | listening _ _ complete =>
      exact absurd complete.threads_ (hall _)
    | startLoop t i published only calls lt threads_ loops_ inits silent =>
      have hlast : thread = i ∧ published = false := by
        rw [threads_, List.getElem?_append] at hthread
        split at hthread
        . next hlt =>
          rw [List.getElem?_replicate] at hthread
          split at hthread <;> cases hthread
        . next hge =>
          rw [List.length_replicate] at hthread hge
          rw [List.getElem?_singleton] at hthread
          split at hthread
          . next heq =>
            rw [Option.some.injEq] at hthread
            exact ⟨by omega, hthread⟩
          . cases hthread
      obtain ⟨rfl, rfl⟩ := hlast
      refine .startLoop t thread true only calls lt ?_ loops_ ?_
        ⟨silent.next_, silent.pending, silent.listens, silent.given⟩
      . change s.threads_.set thread true = _
        rw [threads_]
        simp
      . change (if s.threadInitCallback_ then s.inits ++ [some thread] else s.inits) = s.initsOf (thread + 1)
        rw [inits, initsOf, initsOf]
        split
        . simp [List.range_succ]
        . rfl
  . cases hnext

theorem Stage.startLoop_return (h : s.Stage) (hnext : s.next (.startLoop t) = some s') : s'.Stage := by
  simp only [next] at hnext
  split at hnext
  . next i thread hcaller =>
    split at hnext
    . next hthread =>
      rw [Option.some.injEq] at hnext
      subst hnext
      obtain ⟨only, rfl, calls, lt, loops_, silent, published, threads_, inits⟩ := h.of_startLoop hcaller
      have hpublished : published = true := by
        rw [threads_, List.getElem?_append_right (by simp)] at hthread
        simpa using hthread
      subst hpublished
      have honly : Only { s with loops_ := s.loops_ ++ [thread] } t (.startLoop thread thread) := only
      refine .threads t (thread + 1) (honly.set _) calls lt ?_ ?_ inits
        ⟨silent.next_, silent.pending, silent.listens, silent.given⟩
      . rw [List.replicate_succ']
        exact threads_
      . change s.loops_ ++ [thread] = _
        rw [loops_, List.range_succ]
    . cases hnext
  . cases hnext

theorem Stage.endThreads (h : s.Stage) (hnext : s.next (.endThreads t) = some s') : s'.Stage := by
  simp only [next] at hnext
  split at hnext
  . next i hcaller =>
    split at hnext
    . cases hnext
    . next hend =>
      rw [Option.some.injEq] at hnext
      subst hnext
      obtain ⟨only, calls, le, threads_, loops_, inits, silent⟩ := h.of_threads hcaller
      have hi : i = s.numThreads_ := by omega
      subst hi
      split
      . next hzero =>
        have honly : (s.init none).Only t (.threads s.numThreads_) := only
        refine .runInLoop t (honly.set _) calls ⟨threads_, loops_, ?_⟩
          ⟨silent.next_, silent.pending, silent.listens, silent.given⟩
        change (if s.threadInitCallback_ then s.inits ++ [none] else s.inits) = s.allInits
        rw [allInits, if_pos hzero, inits, initsOf, hzero]
        split <;> rfl
      . next hsome =>
        refine .runInLoop t (only.set _) calls ⟨threads_, loops_, ?_⟩
          ⟨silent.next_, silent.pending, silent.listens, silent.given⟩
        change s.inits = s.allInits
        rw [allInits, if_neg hsome, inits]
  . cases hnext

-- the acceptor listens, and the pool is complete
theorem Stage.listen (h : s.Complete) (hcallers : ∀ t, s.callers t = .idle) (hcalls : 0 < s.calls)
    (hnext : s.next_ = 0) (hpending : s.pending = 0) (hlistens : s.listens = 0) (hgiven : s.given = [])
    : s.listen.Stage := by
  refine .listening hcallers hcalls ⟨h.threads_, h.loops_, h.inits⟩ hpending ?_ ?_ ?_
  . exact congrArg (· + 1) hlistens
  . change s.next_ = if s.numThreads_ = 0 then 0 else s.given.length % s.numThreads_
    simp [hnext, hgiven]
  . change s.given = (List.range s.given.length).map fun i => dealt s.numThreads_ (i + 1)
    rw [hgiven]
    rfl

theorem Stage.runInLoop_listen (h : s.Stage) (hnext : s.next (.runInLoop t) = some s') : s'.Stage := by
  simp only [next] at hnext
  split at hnext
  . next hcaller =>
    rw [Option.some.injEq] at hnext
    subst hnext
    obtain ⟨only, calls, complete, silent⟩ := h.of_runInLoop hcaller
    split
    . have hlisten := Stage.listen (s := s.setCaller t .idle) ⟨complete.threads_, complete.loops_, complete.inits⟩
        only.idle calls silent.next_ silent.pending silent.listens silent.given
      exact hlisten
    . have honly : Only { s with pending := s.pending + 1 } t .runInLoop := only
      exact .queued honly.idle calls ⟨complete.threads_, complete.loops_, complete.inits⟩ silent.next_
        (congrArg (· + 1) silent.pending) silent.listens silent.given
  . cases hnext

theorem Stage.runFunctor (h : s.Stage) (hnext : s.next .runFunctor = some s') : s'.Stage := by
  simp only [next] at hnext
  split at hnext
  . next hready =>
    rw [Option.some.injEq] at hnext
    subst hnext
    have hpending := Nat.ne_of_gt hready.2
    cases h with
    | constructed _ _ _ _ _ silent | threads _ _ _ _ _ _ _ _ silent | startLoop _ _ _ _ _ _ _ _ _ silent
    | runInLoop _ _ _ _ silent => exact absurd silent.pending hpending
    | listening _ _ _ pending => exact absurd pending hpending
    | queued callers calls complete next_ pending listens given =>
      have hdone : s.pending - 1 = 0 := by rw [pending]
      exact Stage.listen (s := { s with pending := s.pending - 1 })
        ⟨complete.threads_, complete.loops_, complete.inits⟩ callers calls next_ hdone listens given
  . cases hnext

theorem Stage.handleRead (h : s.Stage) (hnext : s.next .handleRead = some s') : s'.Stage := by
  simp only [next] at hnext
  split at hnext
  . next hready =>
    rw [Option.some.injEq] at hnext
    subst hnext
    have hlistens := Nat.ne_of_gt hready.2
    cases h with
    | constructed _ _ _ _ _ silent | threads _ _ _ _ _ _ _ _ silent | startLoop _ _ _ _ _ _ _ _ _ silent
    | runInLoop _ _ _ _ silent => exact absurd silent.listens hlistens
    | queued _ _ _ _ _ listens => exact absurd listens hlistens
    | listening callers calls complete pending listens next_ given =>
      have hlength : s.pool.loops_ = s.numThreads_ := by
        rw [pool, complete.loops_, List.length_range]
      have hturn := ServerLoops.getNextLoop_turn (p := s.pool) (m := s.given.length) (by rw [hlength]; exact next_)
      rw [hlength] at hturn
      obtain ⟨hloop, _, hnext'⟩ := hturn
      refine .listening callers calls ⟨complete.threads_, complete.loops_, complete.inits⟩ pending listens ?_ ?_
      . change s.pool.getNextLoop.2.next_ =
          if s.numThreads_ = 0 then 0 else (s.given ++ [s.pool.getNextLoop.1]).length % s.numThreads_
        rw [hnext', List.length_append]
        rfl
      . change s.given ++ [s.pool.getNextLoop.1] = (List.range (s.given ++ [s.pool.getNextLoop.1]).length).map _
        rw [List.length_append, List.length_singleton, List.range_succ, List.map_append, ← given, hloop]
        rfl
  . cases hnext

-- only `start()` touches `started_`
theorem started_step (ha : ∀ t, a ≠ .start t) (hnext : s.next a = some s')
    : s'.started_ = s.started_ ∧ s'.calls = s.calls := by
  cases a with
  | start t => exact absurd rfl (ha t)
  | newThread t | startLoop t =>
    simp only [next] at hnext
    split at hnext
    . split at hnext
      . rw [Option.some.injEq] at hnext
        exact hnext ▸ ⟨rfl, rfl⟩
      . cases hnext
    . cases hnext
  | endThreads t =>
    simp only [next] at hnext
    split at hnext
    . split at hnext
      . cases hnext
      . rw [Option.some.injEq] at hnext
        subst hnext
        split <;> exact ⟨rfl, rfl⟩
    . cases hnext
  | runInLoop t =>
    simp only [next] at hnext
    split at hnext
    . rw [Option.some.injEq] at hnext
      subst hnext
      split <;> exact ⟨rfl, rfl⟩
    . cases hnext
  | publish | runFunctor | handleRead =>
    simp only [next] at hnext
    split at hnext
    . rw [Option.some.injEq] at hnext
      exact hnext ▸ ⟨rfl, rfl⟩
    . cases hnext

theorem Inv.step (h : s.Inv) (hcalls : s'.calls < 0x100000000) (hnext : s.next a = some s') : s'.Inv := by
  by_cases ha : ∃ t, a = .start t
  . obtain ⟨t, rfl⟩ := ha
    refine h.start ?_ hnext
    simp only [next] at hnext
    split at hnext
    . rw [Option.some.injEq] at hnext
      subst hnext
      split at hcalls <;> exact hcalls
    . cases hnext
  . obtain ⟨hstarted, hsame⟩ := started_step (fun t heq => ha ⟨t, heq⟩) hnext
    refine ⟨by rw [hstarted, hsame]; exact h.started_, ?_⟩
    cases a with
    | start t => exact absurd ⟨t, rfl⟩ ha
    | newThread t => exact h.stage.newThread hnext
    | publish thread => exact h.stage.publish hnext
    | startLoop t => exact h.stage.startLoop_return hnext
    | endThreads t => exact h.stage.endThreads hnext
    | runInLoop t => exact h.stage.runInLoop_listen hnext
    | runFunctor => exact h.stage.runFunctor hnext
    | handleRead => exact h.stage.handleRead hnext

theorem calls_le_step (hnext : s.next a = some s') : s.calls ≤ s'.calls := by
  by_cases ha : ∃ t, a = .start t
  . obtain ⟨t, rfl⟩ := ha
    simp only [next] at hnext
    split at hnext
    . rw [Option.some.injEq] at hnext
      subst hnext
      split <;> exact Nat.le_succ _
    . cases hnext
  . exact Nat.le_of_eq (started_step (fun t heq => ha ⟨t, heq⟩) hnext).2.symm

theorem inv_reachable (h : system.Reachable s) (hcalls : s.calls < 0x100000000) : s.Inv := by
  induction h with
  | init hinit =>
    obtain ⟨hstarted, hcallers, hthreads, hloops, hnext, hpending, hzero, hinits, hlistens, hgiven⟩ := hinit
    refine ⟨?_, .constructed hcallers hzero hthreads hloops hinits ⟨hnext, hpending, hlistens, hgiven⟩⟩
    rw [hstarted, hzero]
    rfl
  | step _ _ hstep ih => exact (ih (Nat.lt_of_le_of_lt (calls_le_step hstep) hcalls)).step hcalls hstep

/--
However many threads call `start()`, the pool is started once and the acceptor listens once, behind it, so that
each connection goes to the loop whose turn it is among all of them.
-/
theorem listens_on_complete_pool (s : Startup) (h : system.Reachable s) (hcalls : s.calls < 0x100000000)
    : s.pending + s.listens ≤ 1
        ∧ (0 < s.pending + s.listens → s.Complete)
        ∧ s.given = (List.range s.given.length).map fun i => dealt s.numThreads_ (i + 1) := by
  have hsilent : s.Silent → s.pending + s.listens = 0
      ∧ s.given = (List.range s.given.length).map fun i => dealt s.numThreads_ (i + 1) := by
    intro silent
    rw [silent.pending, silent.listens, silent.given]
    exact ⟨rfl, rfl⟩
  cases (inv_reachable h hcalls).stage with
  | constructed _ _ _ _ _ silent | threads _ _ _ _ _ _ _ _ silent | startLoop _ _ _ _ _ _ _ _ _ silent
  | runInLoop _ _ _ _ silent =>
    obtain ⟨hnone, hgiven⟩ := hsilent silent
    exact ⟨by omega, fun hsome => by omega, hgiven⟩
  | queued _ _ complete _ pending listens given =>
    refine ⟨by omega, fun _ => complete, ?_⟩
    rw [given]
    rfl
  | listening _ _ complete pending listens _ given => exact ⟨by omega, fun _ => complete, given⟩

-- a server with two io loops that the base loop's thread and another start
def constructed : Startup where
  started_ := 0
  callers _ := .idle
  numThreads_ := 2
  threadInitCallback_ := true
  threads_ := []
  loops_ := []
  next_ := 0
  pending := 0
  calls := 0
  inits := []
  listens := 0
  given := []

def startedTwice : Startup :=
  (system.run constructed [.start 1, .start 0, .newThread 1, .publish 0, .startLoop 1, .newThread 1, .publish 1,
    .startLoop 1, .endThreads 1, .runInLoop 1, .runFunctor, .handleRead, .handleRead, .handleRead]).get rfl

theorem listens_on_complete_pool_startedTwice
    : startedTwice.calls = 2 ∧ startedTwice.listens = 1 ∧ startedTwice.inits = [some 0, some 1]
        ∧ startedTwice.given = [1, 2, 1] ∧ startedTwice.Complete := by
  have hinit : constructed.Constructed := ⟨rfl, fun _ => rfl, rfl, rfl, rfl, rfl, rfl, rfl, rfl, rfl⟩
  have hreachable : system.Reachable startedTwice := LTS.Reachable.run (.init hinit) (Option.some_get _).symm
  exact ⟨rfl, rfl, rfl, rfl,
    (listens_on_complete_pool startedTwice hreachable (by decide)).2.1 (by decide)⟩

end Startup

end TcpServer

end MyMuduo
