import Mathlib.Data.List.Perm.Basic
import MyMuduo.Timer.Cancel

/-!
This module contains `addTimer` on threads other than the loop's. The timer is handed over to the loop before
its sequence is read.
-/

namespace MyMuduo

universe u

/--
What a call of `addTimer` returns: the timer that it has created, the sequence that it has read, and whether
the timer existed then.
-/
structure AddedTimer where
  created : TimerId
  sequence : Nat
  live : Bool
  deriving DecidableEq, Repr

def AddedTimer.timerId (r : AddedTimer) : TimerId where
  timer := r.created.timer
  sequence := r.sequence

/--
The calls of `addTimer` on other threads that are still to queue `addTimerInLoop`, that have queued it, and
that have read the sequence. `returned` is history, and has the calls on the loop thread as well.
-/
structure TimerThreads (φ : Type u) where
  loop : TimerLoop φ
  allocated : List TimerId
  queued : List TimerId
  read : List AddedTimer
  returned : List AddedTimer

namespace TimerThreads

variable {φ : Type u}

/--
The steps of the calls on other threads come in any order. A read of a deleted timer gives `garbage`.
-/
inductive Label (φ : Type u) where
  | loop (a : TimerLoop.Label φ)
  | allocate (timer : Addr) (cb : φ) (when_ : Timestamp) (interval : Rat)
  | queueInLoop (i : Nat)
  | readSequence (i : Nat) (garbage : Nat)
  | return_ (i : Nat)

-- an id that a user has: it is the default one, or `addTimer` has returned it
def knows (s : TimerThreads φ) (timerId : TimerId) : Bool :=
  timerId == { timer := 0, sequence := 0 } || s.returned.any (·.timerId == timerId)

-- `createTimer` is taken apart
def enabled (s : TimerThreads φ) : Label φ → Bool
  | .loop (.createTimer ..) => false
  | .loop (.cancel timerId) => s.loop.enabledAnyTime (.cancel timerId) && s.knows timerId
  | .loop a => s.loop.enabledAnyTime a
  | .allocate timer .. => s.loop.allocates timer
  | .queueInLoop _ | .readSequence .. | .return_ _ => true

def reads (s : TimerThreads φ) (created : TimerId) (garbage : Nat) : AddedTimer where
  created := created
  sequence := (s.loop.queue.heap created.timer).elim garbage (·.sequence)
  live := (s.loop.queue.heap created.timer).any (·.sequence == created.sequence)

-- what a call of `addTimer` on the loop thread returns
def added (s s' : TimerThreads φ) : TimerLoop.Label φ → List AddedTimer
  | .addTimer timer .. => [s'.reads { timer := timer, sequence := s.loop.queue.numCreated + 1 } 0]
  | _ => []

def next (s : TimerThreads φ) : Label φ → Option (TimerThreads φ)
  | .loop a =>
    (s.loop.next a).map fun loop =>
      let s' := { s with loop := loop }
      { s' with returned := s.returned ++ s.added s' a }
  | .allocate timer cb when_ interval =>
    let t := Timer.new cb when_ interval s.loop.queue.numCreated
    some
      { s with
          loop := { s.loop with queue := s.loop.queue.allocated timer t }
          allocated := s.allocated ++ [{ timer := timer, sequence := t.sequence }] }
  | .queueInLoop i =>
    s.allocated[i]?.map fun created =>
      { s with
          loop := { s.loop with queued := s.loop.queued ++ [created.timer] }
          allocated := s.allocated.eraseIdx i
          queued := s.queued ++ [created] }
  | .readSequence i garbage =>
    s.queued[i]?.map fun created =>
      { s with
          queued := s.queued.eraseIdx i
          read := s.read ++ [s.reads created garbage] }
  | .return_ i =>
    s.read[i]?.map fun r =>
      { s with
          read := s.read.eraseIdx i
          returned := s.returned ++ [r] }

def new (clock : Int) : TimerThreads φ where
  loop := .new clock
  allocated := []
  queued := []
  read := []
  returned := []

def system (φ : Type u) : LTS (TimerThreads φ) (Label φ) :=
  .guarded (fun s => ∃ clock, s = new clock) enabled next

/--
`reset` finds no timer in the batch that runs only once and whose sequence is still to be read.
-/
def inTime (s : TimerThreads φ) : Label φ → Bool
  | .loop .reset =>
    s.queued.all fun created =>
      created.timer ∉ TimerQueue.addrs s.loop.batch
        || (s.loop.queue.heap created.timer).any (·.repeat_)
  | _ => true

end TimerThreads

namespace TimerLoop

variable {φ : Type u} {s s' : TimerLoop φ} {a : Label φ}

-- with functors that are still to be queued
def holding (s : TimerLoop φ) (held : List Addr) : TimerLoop φ :=
  { s with queued := s.queued ++ held }

def Label.creates : Label φ → Bool
  | .createTimer .. => true
  | _ => false

theorem enabledAnyTime_holding (held : List Addr) : (s.holding held).enabledAnyTime a = s.enabledAnyTime a := by
  cases a <;> rfl

/--
What is still to be queued does not change a step.
-/
theorem next_holding_eq (held : List Addr) (ha : a.creates = false) (hqueued : a = .addTimerInLoop → s.queued ≠ [])
    : (s.holding held).next a = (s.next a).map (·.holding held) := by
  have hqueue : (s.holding held).queue = s.queue := rfl
  have hframe : (s.holding held).frame = s.frame := rfl
  have hclock : (s.holding held).clock = s.clock := rfl
  cases a with
  | createTimer => cases ha
  | tick | report => rfl
  | addTimer | cancel | handleRead =>
    simp only [next, TimerLoop.handleRead, hqueue, hclock, Option.map_map]
    rfl
  | addTimerInLoop =>
    obtain ⟨timer, queued, heq⟩ := List.exists_cons_of_ne_nil (hqueued rfl)
    simp only [next, holding, heq, List.cons_append, Option.map_map]
    rfl
  | run =>
    simp only [next, hframe]
    cases s.frame with
    | none => rfl
    | some f =>
      simp only [Option.bind_some, TimerLoop.run, hqueue]
      cases f.todo with
      | nil => rfl
      | cons it todo =>
        rw [Option.map_map]
        rfl
  | return_ =>
    simp only [next, hframe, Option.map_map]
    rfl
  | reset =>
    simp only [next, hframe]
    cases s.frame with
    | none => rfl
    | some f =>
      simp only [Option.bind_some, TimerLoop.reset, hqueue, hclock, Option.map_map]
      rfl

theorem queued_of_next (h : s.next a = some s') (ha : a = .addTimerInLoop) : s.queued ≠ [] := by
  subst ha
  intro hnil
  simp [next, hnil] at h

theorem next_holding (held : List Addr) (ha : a.creates = false) (h : s.next a = some s')
    : (s.holding held).next a = some (s'.holding held) := by
  rw [next_holding_eq held ha (queued_of_next h), h, Option.map_some]

theorem Issued.of_queue {timerId : TimerId} (h : s.Issued timerId) (hqueue : s'.queue = s.queue)
    : s'.Issued timerId := by
  refine ⟨?_, ?_⟩
  . rw [hqueue]
    exact h.numCreated
  . rw [hqueue]
    exact h.addr

theorem canceling_next (hinv : s.Inv) (henabled : s.enabledAnyTime a = true) (h : s.next a = some s')
    {key : ActiveTimer} (hkey : key ∈ s'.queue.cancelingTimers)
    : key ∈ s.queue.cancelingTimers
        ∨ ∃ timerId, a = .cancel timerId ∧ key = toLex (timerId.timer, timerId.sequence) := by
  have hsteps := hinv.steps_of_next henabled h
  cases hsteps with
  | tick | report | createTimer | run | return_ => exact .inl hkey
  | addTimer timer cb when_ interval t queue _ _ _ hsame =>
    rw [hsame.cancelingTimers] at hkey
    exact .inl hkey
  | addTimerInLoop timer t queued queue _ _ _ hsame =>
    rw [hsame.cancelingTimers] at hkey
    exact .inl hkey
  | cancelPending => exact .inl hkey
  | cancelOther timerId =>
    simp only [TimerQueue.canceling] at hkey
    split at hkey
    . rw [SortedSet.mem_insert] at hkey
      cases hkey with
      | inl heq => exact .inr ⟨timerId, rfl, heq⟩
      | inr hmem => exact .inl hmem
    . exact .inl hkey
  | handleRead f queue _ _ _ _ _ _ hempty =>
    dsimp only at hkey
    rw [hempty] at hkey
    cases hkey
  | reset =>
    rw [canceling_reset h] at hkey
    exact .inl hkey

end TimerLoop

namespace TimerThreads

open TimerQueue

variable {φ : Type u} {s s' : TimerThreads φ}

-- the timers that nobody but the calling thread knows
def held (s : TimerThreads φ) : List Addr :=
  s.allocated.map TimerId.timer

-- the timers that calls have created
def calls (s : TimerThreads φ) : List TimerId :=
  s.allocated ++ s.queued ++ s.read.map AddedTimer.created ++ s.returned.map AddedTimer.created

/--
A timer lives until its call has read the sequence, and a cancellation names a timer whose call has returned.
-/
structure Inv (s : TimerThreads φ) : Prop where
  loop : (s.loop.holding s.held).Inv
  distinct : (s.calls.map TimerId.sequence).Nodup
  numbered : ∀ created ∈ s.calls, 0 < created.sequence ∧ created.sequence ≤ s.loop.queue.numCreated
  issued : ∀ created ∈ s.calls, s.loop.Issued created
  positive : ∀ timer t, s.loop.queue.heap timer = some t → 0 < t.sequence
  live : ∀ created ∈ s.allocated ++ s.queued,
    ∃ t, s.loop.queue.heap created.timer = some t ∧ t.sequence = created.sequence
  named : ∀ r ∈ s.read ++ s.returned, r.timerId = r.created ∧ r.live = true
  canceling : ∀ timer sequence, toLex (timer, sequence) ∈ s.loop.queue.cancelingTimers →
    sequence = 0 ∨ ∃ r ∈ s.returned, r.created.sequence = sequence

theorem perm_eraseIdx {α : Type} {l : List α} {i : Nat} {x : α} (h : l[i]? = some x)
    : l.Perm (x :: l.eraseIdx i) := by
  obtain ⟨hi, rfl⟩ := List.getElem?_eq_some_iff.mp h
  exact (List.getElem_cons_eraseIdx_perm hi).symm

-- the calls in progress move on and none is created
theorem Inv.of_perm (h : s.Inv) (hperm : s.calls.Perm s'.calls)
    (hnumCreated : s'.loop.queue.numCreated = s.loop.queue.numCreated)
    : (s'.calls.map TimerId.sequence).Nodup
        ∧ ∀ created ∈ s'.calls, 0 < created.sequence ∧ created.sequence ≤ s'.loop.queue.numCreated := by
  constructor
  . exact (hperm.map TimerId.sequence).nodup_iff.mp h.distinct
  . intro created hmem
    rw [hnumCreated]
    exact h.numbered created (hperm.mem_iff.mpr hmem)

theorem Inv.of_created (h : s.Inv) {created : TimerId} (hperm : (created :: s.calls).Perm s'.calls)
    (hsequence : created.sequence = s.loop.queue.numCreated + 1)
    (hnumCreated : s'.loop.queue.numCreated = s.loop.queue.numCreated + 1)
    : (s'.calls.map TimerId.sequence).Nodup
        ∧ ∀ created ∈ s'.calls, 0 < created.sequence ∧ created.sequence ≤ s'.loop.queue.numCreated := by
  constructor
  . apply (hperm.map TimerId.sequence).nodup_iff.mp
    rw [List.map_cons, List.nodup_cons]
    refine ⟨?_, h.distinct⟩
    intro hmem
    obtain ⟨c, hc, heq⟩ := List.mem_map.mp hmem
    have := (h.numbered c hc).2
    omega
  . intro c hmem
    rw [hnumCreated]
    cases List.mem_cons.mp (hperm.mem_iff.mpr hmem) with
    | inl heq =>
      rw [heq, hsequence]
      omega
    | inr hold =>
      have := h.numbered c hold
      omega

theorem Inv.issued_step (h : s.Inv) {a : TimerLoop.Label φ} {view : TimerLoop φ}
    (hsteps : TimerLoop.Steps (s.loop.holding s.held) a view) {created : TimerId} (hmem : created ∈ s.calls)
    : view.Issued created := by
  have hissued : (s.loop.holding s.held).Issued created := (h.issued created hmem).of_queue rfl
  exact hissued.step hsteps

theorem Inv.positive_step (h : s.Inv) {a : TimerLoop.Label φ} {view : TimerLoop φ}
    (hsteps : TimerLoop.Steps (s.loop.holding s.held) a view)
    : ∀ timer t, view.queue.heap timer = some t → 0 < t.sequence := by
  intro timer t' ht'
  cases hsteps.heirs.heap timer t' ht' with
  | inl hold =>
    obtain ⟨t, ht, hsequence⟩ := hold
    exact hsequence ▸ h.positive timer t ht
  | inr hnew => omega

theorem enabled_loop {a : TimerLoop.Label φ} (henabled : s.enabled (.loop a) = true)
    : a.creates = false ∧ (s.loop.holding s.held).enabledAnyTime a = true
        ∧ ∀ timerId, a = .cancel timerId → s.knows timerId = true := by
  rw [TimerLoop.enabledAnyTime_holding]
  cases a with
  | createTimer => cases henabled
  | cancel timerId =>
    simp only [enabled, Bool.and_eq_true] at henabled
    refine ⟨rfl, henabled.1, ?_⟩
    rintro _ ⟨rfl⟩
    exact henabled.2
  | _ => exact ⟨rfl, henabled, fun _ heq => by cases heq⟩

theorem steps_loop {a : TimerLoop.Label φ} {loop : TimerLoop φ} (hview : (s.loop.holding s.held).Inv)
    (henabled : s.enabled (.loop a) = true) (hloop : s.loop.next a = some loop)
    : TimerLoop.Steps (s.loop.holding s.held) a (loop.holding s.held) := by
  obtain ⟨hcreates, henabled, _⟩ := enabled_loop henabled
  exact hview.steps_of_next henabled (TimerLoop.next_holding s.held hcreates hloop)

-- with the timers that are still to be queued, an allocation is `createTimer`
theorem steps_allocate {timer : Addr} {cb : φ} {when_ : Timestamp} {interval : Rat}
    (hview : (s.loop.holding s.held).Inv) (halloc : s.loop.allocates timer = true)
    (hnext : s.next (.allocate timer cb when_ interval) = some s')
    : TimerLoop.Steps (s.loop.holding s.held) (.createTimer timer cb when_ interval) (s'.loop.holding s'.held) := by
  simp only [next, Option.some.injEq] at hnext
  subst hnext
  have hsteps := hview.steps_of_next (a := .createTimer timer cb when_ interval) halloc rfl
  simp only [held, List.map_append, List.map_cons, List.map_nil, TimerLoop.holding, ← List.append_assoc]
  exact hsteps

theorem inv_queueInLoop {i : Nat} (hview : (s.loop.holding s.held).Inv)
    (hnext : s.next (.queueInLoop i) = some s') : (s'.loop.holding s'.held).Inv := by
  simp only [next, Option.map_eq_some_iff] at hnext
  obtain ⟨created, hcreated, rfl⟩ := hnext
  have howns : (s.loop.queued ++ s.held).Perm
      (s.loop.queued ++ [created.timer] ++ (s.allocated.eraseIdx i).map TimerId.timer) := by
    rw [List.append_assoc]
    exact ((perm_eraseIdx hcreated).map TimerId.timer).append_left _
  exact ⟨hview.owns.perm (howns.append_left _), hview.addressable, hview.numbered, hview.ranNumbered, hview.todo⟩

theorem Inv.allocate (h : s.Inv) {timer : Addr} {cb : φ} {when_ : Timestamp} {interval : Rat}
    (halloc : s.loop.allocates timer = true) (hnext : s.next (.allocate timer cb when_ interval) = some s')
    : s'.Inv := by
  have hsteps := steps_allocate h.loop halloc hnext
  have hpositive := h.positive_step hsteps
  simp only [next, Option.some.injEq] at hnext
  subst hnext
  have hfree := (TimerLoop.allocates_iff.mp halloc).1
  let new : TimerId := { timer := timer, sequence := s.loop.queue.numCreated + 1 }
  have hperm : (new :: s.calls).Perm (calls { s with
      loop :=
        { s.loop with
            queue := s.loop.queue.allocated timer (Timer.new cb when_ interval s.loop.queue.numCreated) }
      allocated := s.allocated ++ [new] }) := by
    rw [List.perm_iff_count]
    intro created
    simp only [calls, List.count_append, List.count_cons, List.count_nil]
    omega
  have hcalls := h.of_created hperm rfl rfl
  refine ⟨h.loop.of_steps hsteps, hcalls.1, hcalls.2, ?_, hpositive, ?_, h.named, h.canceling⟩
  . intro created hmem
    cases List.mem_cons.mp (hperm.mem_iff.mpr hmem) with
    | inl heq => exact heq ▸ (h.loop.issued_returned hsteps rfl).of_queue rfl
    | inr hold => exact (h.issued_step hsteps hold).of_queue rfl
  . intro created hmem
    dsimp only at hmem
    rw [List.append_assoc, List.mem_append, List.cons_append, List.nil_append, List.mem_cons] at hmem
    by_cases hnew : created = { timer := timer, sequence := s.loop.queue.numCreated + 1 }
    . subst hnew
      exact ⟨_, Function.update_self .., rfl⟩
    . have hold : created ∈ s.allocated ++ s.queued := by
        rw [List.mem_append]
        tauto
      obtain ⟨t, ht, hsequence⟩ := h.live created hold
      have hne : created.timer ≠ timer := by
        intro heq
        rw [heq, hfree] at ht
        cases ht
      exact ⟨t, (Function.update_of_ne hne ..).trans ht, hsequence⟩

theorem Inv.queueInLoop (h : s.Inv) {i : Nat} (hnext : s.next (.queueInLoop i) = some s') : s'.Inv := by
  have hview := inv_queueInLoop h.loop hnext
  simp only [next, Option.map_eq_some_iff] at hnext
  obtain ⟨created, hcreated, rfl⟩ := hnext
  have hperm := perm_eraseIdx hcreated
  have hmoved : s.calls.Perm (calls { s with
      loop := { s.loop with queued := s.loop.queued ++ [created.timer] }
      allocated := s.allocated.eraseIdx i
      queued := s.queued ++ [created] }) := by
    rw [List.perm_iff_count]
    intro c
    have hc := hperm.count_eq c
    simp only [calls, List.count_append, List.count_cons, List.count_nil] at hc ⊢
    omega
  have hcalls := h.of_perm hmoved rfl
  refine ⟨hview, hcalls.1, hcalls.2, ?_, h.positive, ?_, h.named, h.canceling⟩
  . intro c hc
    exact (h.issued c (hmoved.mem_iff.mpr hc)).of_queue rfl
  . intro c hmem
    apply h.live
    have hmem' : c ∈ s.allocated ↔ _ := hperm.mem_iff
    simp only [List.mem_append, List.mem_cons, List.not_mem_nil, or_false] at hmem hmem' ⊢
    tauto

theorem Inv.readSequence (h : s.Inv) {i garbage : Nat} (hnext : s.next (.readSequence i garbage) = some s')
    : s'.Inv := by
  simp only [next, Option.map_eq_some_iff] at hnext
  obtain ⟨created, hcreated, rfl⟩ := hnext
  have hperm := perm_eraseIdx hcreated
  have hmoved : s.calls.Perm
      (calls { s with queued := s.queued.eraseIdx i, read := s.read ++ [s.reads created garbage] }) := by
    rw [List.perm_iff_count]
    intro c
    have hc := hperm.count_eq c
    simp only [calls, reads, List.count_append, List.map_append, List.map_cons, List.map_nil, List.count_cons,
      List.count_nil] at hc ⊢
    omega
  have hcalls := h.of_perm hmoved rfl
  have hmem : ∀ c, c ∈ s.queued ↔ c = created ∨ c ∈ s.queued.eraseIdx i := by
    intro c
    rw [hperm.mem_iff, List.mem_cons]
  have hissued := fun c hc => h.issued c (hmoved.mem_iff.mpr hc)
  refine ⟨h.loop, hcalls.1, hcalls.2, hissued, h.positive, ?_, ?_, h.canceling⟩
  . intro c hc
    apply h.live
    simp only [List.mem_append, hmem] at hc ⊢
    tauto
  . intro r hr
    obtain ⟨t, ht, hsequence⟩ := h.live created (List.mem_append_right _ ((hmem created).mpr (.inl rfl)))
    by_cases hnew : r = s.reads created garbage
    . simp [hnew, reads, AddedTimer.timerId, ht, hsequence]
    . apply h.named
      simp only [List.mem_append, List.mem_singleton] at hr ⊢
      tauto

theorem Inv.return_ (h : s.Inv) {i : Nat} (hnext : s.next (.return_ i) = some s') : s'.Inv := by
  simp only [next, Option.map_eq_some_iff] at hnext
  obtain ⟨r, hr, rfl⟩ := hnext
  have hperm := perm_eraseIdx hr
  have hmoved : s.calls.Perm (calls { s with read := s.read.eraseIdx i, returned := s.returned ++ [r] }) := by
    rw [List.perm_iff_count]
    intro c
    have hc := (hperm.map AddedTimer.created).count_eq c
    simp only [calls, List.count_append, List.map_append, List.map_cons, List.map_nil, List.count_cons,
      List.count_nil] at hc ⊢
    omega
  have hcalls := h.of_perm hmoved rfl
  have hissued := fun c hc => h.issued c (hmoved.mem_iff.mpr hc)
  refine ⟨h.loop, hcalls.1, hcalls.2, hissued, h.positive, h.live, ?_, ?_⟩
  . intro r' hr'
    apply h.named
    have hmem : r' ∈ s.read ↔ _ := hperm.mem_iff
    simp only [List.mem_append, List.mem_cons, List.not_mem_nil, or_false] at hr' hmem ⊢
    tauto
  . intro timer sequence hkey
    cases h.canceling timer sequence hkey with
    | inl hzero => exact .inl hzero
    | inr hreturned =>
      obtain ⟨r', hr', heq⟩ := hreturned
      exact .inr ⟨r', List.mem_append_left _ hr', heq⟩

-- a step of the loop creates a timer, whose sequence it reads at once, or none
theorem added_cases {a : TimerLoop.Label φ} {loop : TimerLoop φ} (hcreates : a.creates = false)
    (hsteps : TimerLoop.Steps (s.loop.holding s.held) a (loop.holding s.held))
    : (∃ timer, s.added { s with loop := loop } a =
          [{ created := ⟨timer, s.loop.queue.numCreated + 1⟩
             sequence := s.loop.queue.numCreated + 1
             live := true }]
          ∧ loop.queue.numCreated = s.loop.queue.numCreated + 1)
        ∨ (s.added { s with loop := loop } a = [] ∧ loop.queue.numCreated = s.loop.queue.numCreated) := by
  have hholding : ∀ l : TimerLoop φ, (l.holding s.held).queue = l.queue := fun _ => rfl
  generalize hview : loop.holding s.held = view at hsteps
  have hqueue : loop.queue = view.queue := by
    rw [← hview]
    rfl
  cases hsteps with
  | addTimer timer cb when_ interval t queue _ _ ht hsame =>
    have hheap : loop.queue.heap timer = some t := by
      rw [hqueue, hsame.heap]
      exact Function.update_self ..
    refine .inl ⟨timer, ?_, ?_⟩
    . simp [added, reads, hheap, ht, Timer.new, hholding]
    . rw [hqueue, hsame.numCreated]
      rfl
  | createTimer => cases hcreates
  | addTimerInLoop timer t queued queue _ _ _ hsame => exact .inr ⟨rfl, hqueue ▸ hsame.numCreated⟩
  | cancelOther timerId => exact .inr ⟨rfl, hqueue ▸ (s.loop.queue.canceling_eq timerId).2.2.2⟩
  | handleRead f queue _ _ _ _ _ _ _ hexpiry => exact .inr ⟨rfl, hqueue ▸ hexpiry.numCreated⟩
  | reset f queue _ _ _ hrenewed => exact .inr ⟨rfl, hqueue ▸ hrenewed.numCreated⟩
  | tick | cancelPending | report | run | return_ =>
    refine .inr ⟨rfl, ?_⟩
    rw [hqueue]
    rfl

-- the sequence of a timer whose call has not returned is not that of an id that a user has
theorem Inv.sequence_ne (h : s.Inv) {created timerId : TimerId} (hmem : created ∈ s.allocated ++ s.queued)
    (hknows : s.knows timerId = true) : created.sequence ≠ timerId.sequence := by
  have hcalls : created ∈ s.calls := by
    simp only [calls, List.mem_append] at hmem ⊢
    tauto
  have hpositive := (h.numbered created hcalls).1
  simp only [knows, Bool.or_eq_true, beq_iff_eq, List.any_eq_true] at hknows
  cases hknows with
  | inl hdefault =>
    rw [hdefault]
    exact Nat.ne_of_gt hpositive
  | inr hreturned =>
    obtain ⟨r, hr, heq⟩ := hreturned
    have hnamed := (h.named r (List.mem_append_right _ hr)).1
    have hdistinct := h.distinct
    rw [calls, List.append_assoc, List.map_append, List.nodup_append] at hdistinct
    rw [← heq, hnamed]
    apply hdistinct.2.2
    . exact List.mem_map_of_mem hmem
    . apply List.mem_map_of_mem
      exact List.mem_append_right _ (List.mem_map_of_mem hr)

theorem Inv.live_loop (h : s.Inv) {a : TimerLoop.Label φ} {view : TimerLoop φ}
    (hsteps : TimerLoop.Steps (s.loop.holding s.held) a view)
    (hknows : ∀ timerId, a = .cancel timerId → s.knows timerId = true) (hok : s.inTime (.loop a) = true)
    {created : TimerId} (hmem : created ∈ s.allocated ++ s.queued)
    : ∃ t, view.queue.heap created.timer = some t ∧ t.sequence = created.sequence := by
  obtain ⟨t, ht, hsequence⟩ := h.live created hmem
  have hcancel : a ≠ .cancel ⟨created.timer, t.sequence⟩ := by
    intro heq
    exact h.sequence_ne hmem (hknows _ heq) hsequence.symm
  by_cases hreset : a = .reset ∧ created.timer ∈ addrs s.loop.batch
  . obtain ⟨rfl, hbatch⟩ := hreset
    -- `reset` takes the timer into the sets again
    have hqueued : created ∈ s.queued := by
      rw [List.mem_append] at hmem
      refine hmem.resolve_left ?_
      intro hheld
      have hnodup := h.loop.owns.nodup
      rw [List.nodup_append] at hnodup
      refine hnodup.2.2 _ hbatch _ (List.mem_append_right _ ?_) rfl
      exact List.mem_map_of_mem hheld
    have hrepeat : t.repeat_ = true := by
      simp only [inTime, List.all_eq_true, Bool.or_eq_true, decide_eq_true_eq] at hok
      simpa [hbatch, ht] using hok created hqueued
    have hnotCanceled : toLex (created.timer, t.sequence) ∉ s.loop.queue.cancelingTimers := by
      intro hkey
      have hcalls : created ∈ s.calls := by
        simp only [calls, List.mem_append] at hmem ⊢
        tauto
      have hpositive := (h.numbered created hcalls).1
      rw [hsequence] at hkey
      cases h.canceling _ _ hkey with
      | inl hzero => omega
      | inr hreturned =>
        obtain ⟨r, hr, heq⟩ := hreturned
        have hknown : s.knows r.timerId = true := by
          simp only [knows, Bool.or_eq_true, List.any_eq_true]
          exact .inr ⟨r, hr, by simp⟩
        have hne := h.sequence_ne hmem hknown
        rw [(h.named r (List.mem_append_right _ hr)).1, heq] at hne
        exact hne rfl
    cases hsteps with
    | reset f queue hf _ _ hrenewed _ =>
      have hf : s.loop.frame = some f := hf
      rw [TimerLoop.batch_of_some hf] at hbatch
      have hheap := hrenewed.batch _ hbatch
      have hloop : (s.loop.holding s.held).queue.heap created.timer = some t := ht
      refine ⟨t.restart f.now, ?_, (t.sequence_restart _).trans hsequence⟩
      rw [hheap]
      dsimp only
      rw [hloop, Option.bind_some, renewed, if_pos]
      simp only [hrepeat, Bool.true_and, decide_eq_true_eq]
      exact hnotCanceled
  . refine ⟨t, hsteps.heap_kept ht (fun _ => hcancel) ?_, hsequence⟩
    intro heq hbatch
    exact hreset ⟨heq, hbatch⟩

theorem Inv.issued_added (h : s.Inv) {a : TimerLoop.Label φ} {loop : TimerLoop φ}
    (hsteps : TimerLoop.Steps (s.loop.holding s.held) a (loop.holding s.held)) {r : AddedTimer}
    (hr : r ∈ s.added { s with loop := loop } a) : loop.Issued r.created := by
  cases a with
  | addTimer timer cb when_ interval =>
    rw [added, List.mem_singleton] at hr
    subst hr
    exact (h.loop.issued_returned hsteps rfl).of_queue rfl
  | _ => cases hr

theorem Inv.loop_step (h : s.Inv) {a : TimerLoop.Label φ} (henabled : s.enabled (.loop a) = true)
    (hok : s.inTime (.loop a) = true) (hnext : s.next (.loop a) = some s') : s'.Inv := by
  obtain ⟨hcreates, hview_enabled, hknows⟩ := enabled_loop henabled
  simp only [next, Option.map_eq_some_iff] at hnext
  obtain ⟨loop, hloop, rfl⟩ := hnext
  have hview := TimerLoop.next_holding s.held hcreates hloop
  have hsteps := steps_loop h.loop henabled hloop
  have hcalls : ∀ rs, calls { s with loop := loop, returned := s.returned ++ rs }
      = s.calls ++ rs.map AddedTimer.created := by
    intro rs
    simp only [calls, List.map_append, List.append_assoc]
  have hnumbered : ((calls { s with
          loop := loop
          returned := s.returned ++ s.added { s with loop := loop } a }).map TimerId.sequence).Nodup
      ∧ ∀ created ∈ calls { s with
          loop := loop
          returned := s.returned ++ s.added { s with loop := loop } a },
        0 < created.sequence ∧ created.sequence ≤ loop.queue.numCreated := by
    cases added_cases hcreates hsteps with
    | inl hcreated =>
      obtain ⟨timer, hadded, hnumCreated⟩ := hcreated
      have hperm : (⟨timer, s.loop.queue.numCreated + 1⟩ :: s.calls).Perm
          (calls { s with loop := loop, returned := s.returned ++ s.added { s with loop := loop } a }) := by
        rw [hcalls, hadded]
        exact (List.perm_append_singleton _ _).symm
      exact h.of_created hperm rfl hnumCreated
    | inr hnone =>
      refine h.of_perm ?_ hnone.2
      rw [hcalls, hnone.1, List.map_nil, List.append_nil]
  have hpositive : ∀ timer t, (loop.holding s.held).queue.heap timer = some t → 0 < t.sequence :=
    h.positive_step hsteps
  refine ⟨h.loop.of_steps hsteps, hnumbered.1, hnumbered.2, ?_, hpositive, ?_, ?_, ?_⟩
  . intro created hmem
    rw [hcalls, List.mem_append] at hmem
    cases hmem with
    | inl hold => exact (h.issued_step hsteps hold).of_queue rfl
    | inr hnew =>
      obtain ⟨r, hr, rfl⟩ := List.mem_map.mp hnew
      exact h.issued_added hsteps hr
  . intro created hmem
    exact h.live_loop hsteps hknows hok hmem
  . intro r hr
    dsimp only at hr
    rw [← List.append_assoc, List.mem_append] at hr
    cases hr with
    | inl hold => exact h.named r hold
    | inr hnew =>
      cases added_cases hcreates hsteps with
      | inl hcreated =>
        obtain ⟨timer, hadded, _⟩ := hcreated
        rw [hadded, List.mem_singleton] at hnew
        subst hnew
        exact ⟨rfl, rfl⟩
      | inr hnone =>
        rw [hnone.1] at hnew
        cases hnew
  . intro timer sequence hkey
    have hlater : ∀ r ∈ s.returned, r ∈ s.returned ++ s.added { s with loop := loop } a :=
      fun r hr => List.mem_append_left _ hr
    cases TimerLoop.canceling_next h.loop hview_enabled hview hkey with
    | inl hold =>
      cases h.canceling timer sequence hold with
      | inl hzero => exact .inl hzero
      | inr hreturned =>
        obtain ⟨r, hr, heq⟩ := hreturned
        exact .inr ⟨r, hlater r hr, heq⟩
    | inr hcancel =>
      obtain ⟨timerId, heq, hkey⟩ := hcancel
      have hknown := hknows timerId heq
      simp only [EmbeddingLike.apply_eq_iff_eq, Prod.mk.injEq] at hkey
      simp only [knows, Bool.or_eq_true, beq_iff_eq, List.any_eq_true] at hknown
      cases hknown with
      | inl hdefault => exact .inl (by rw [hkey.2, hdefault])
      | inr hreturned =>
        obtain ⟨r, hr, hid⟩ := hreturned
        refine .inr ⟨r, hlater r hr, ?_⟩
        rw [hkey.2, ← hid, (h.named r (List.mem_append_right _ hr)).1]

theorem inv_reachable (h : (system φ).ReachableBy (fun s a => s.inTime a = true) s) : s.Inv := by
  refine LTS.ReachableBy.invariant Inv ?_ ?_ h
  . rintro _ ⟨clock, rfl⟩
    refine ⟨.new clock, .nil, ?_, ?_, ?_, ?_, ?_, ?_⟩
    . intro c hc
      cases hc
    . intro c hc
      cases hc
    . intro timer t ht
      cases ht
    . intro c hc
      cases hc
    . intro r hr
      cases hr
    . intro timer sequence hkey
      cases hkey
  . intro s a s' hinv hok hstep
    obtain ⟨henabled, hnext⟩ := LTS.guarded_step.mp hstep
    cases a with
    | loop a => exact hinv.loop_step henabled hok hnext
    | allocate timer cb when_ interval => exact hinv.allocate henabled hnext
    | queueInLoop i => exact hinv.queueInLoop hnext
    | readSequence i garbage => exact hinv.readSequence hnext
    | return_ i => exact hinv.return_ hnext

/--
As long as the sequence of every timer that runs only once is read before the `handleRead` that runs it ends,
each call of `addTimer` returns the id of the timer that it has created.
-/
theorem added_named (s : TimerThreads φ) (h : (system φ).ReachableBy (fun s a => s.inTime a = true) s)
    : ∀ r ∈ s.returned, r.timerId = r.created ∧ r.live = true := by
  intro r hr
  exact (inv_reachable h).named r (List.mem_append_right _ hr)

-- the read comes between the callback and the end of `handleRead`
def readInTime : TimerThreads Unit :=
  ((system Unit).runChecked inTime (new 1000000)
    [.allocate 1 () 1 0, .queueInLoop 0, .loop .addTimerInLoop, .loop (.tick 100), .loop .report,
      .loop .handleRead, .loop .run, .readSequence 0 0, .loop .return_, .loop .reset, .return_ 0]).get rfl

theorem added_named_readInTime
    : readInTime.returned = [⟨⟨1, 1⟩, 1, true⟩]
        ∧ ∀ r ∈ readInTime.returned, r.timerId = r.created ∧ r.live = true := by
  have hs : (system Unit).ReachableBy (fun s a => s.inTime a = true) readInTime :=
    LTS.ReachableBy.runChecked (fun _ _ => id) (.init ⟨1000000, rfl⟩) (Option.some_get _).symm
  exact ⟨rfl, added_named readInTime hs⟩

-- the timer is run and deleted and its address is used again before its sequence is read
def overtaken : TimerThreads Unit :=
  ((system Unit).run (new 1000000)
    [.allocate 1 () 1 0, .queueInLoop 0, .loop .addTimerInLoop, .loop (.tick 100), .loop .report,
      .loop .handleRead, .loop .run, .loop .return_, .loop .reset, .loop (.addTimer 1 () 5 0), .readSequence 0 0,
      .return_ 0]).get rfl

theorem reachable_overtaken : (system Unit).Reachable overtaken :=
  LTS.Reachable.run (.init ⟨1000000, rfl⟩) (Option.some_get _).symm

theorem added_overtaken
    : (system Unit).Reachable overtaken
        ∧ ∃ r ∈ overtaken.returned, r.created = ⟨1, 1⟩ ∧ r.timerId = ⟨1, 2⟩ ∧ r.live = false :=
  ⟨reachable_overtaken, ⟨⟨1, 1⟩, 2, false⟩, by decide, rfl, rfl, rfl⟩

end TimerThreads

end MyMuduo
