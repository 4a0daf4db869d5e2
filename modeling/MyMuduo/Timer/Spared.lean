import MyMuduo.Timer.Threads
import MyMuduo.Timer.Forget

/-!
This module contains that a cancellation affects no other timer than the one it names: what the others are
and what becomes of them is a function of the steps that concern them.
-/

namespace MyMuduo

universe u

variable {φ : Type u}

namespace TimerLoop

open TimerQueue

variable {s s' o o' : TimerLoop φ} {a : Label φ} {x : TimerId}

-- the loop apart from the timer, from the timerfd and from whether a callback runs
def rest (s : TimerLoop φ) (x : TimerId) : TimerLoop φ :=
  (s.without x).forget true x

theorem forget_of_unarmed (h : o.unarmed = o'.unarmed) : o.forget true x = o'.forget true x := by
  have hboth : ∀ s : TimerLoop φ, s.unarmed.forget true x = s.forget true x := by
    intro s
    refine TimerLoop.ext rfl rfl rfl rfl ?_ rfl rfl
    simp only [forget, unarmed, Option.map_map]
    rfl
  rw [← hboth o, h, hboth]

theorem deleted_without : (s.without x).queue.Deleted x := by
  intro timer
  rw [Bool.eq_false_iff, ne_eq, isAt_iff]
  rintro ⟨hx, t, ht, hsequence⟩
  have hlive := (heap_without_eq_some.mp ht)
  rw [Bool.eq_false_iff, ne_eq, isAt_iff] at hlive
  exact hlive.2 ⟨hx, t, hlive.1, hsequence⟩

theorem Inv.rest_visible (h : s.Inv) (hissued : s.Issued x) (henabled : s.enabledAnyTime a = true)
    (hnext : s.next a = some s') (hvisible : s.visible x a = true)
    : ((s.rest x).next a).map (·.forget true x) = some (s'.rest x) := by
  obtain ⟨o, hnext', heq⟩ := h.without_visible hissued henabled hnext hvisible
  rw [rest, next_forget deleted_without, hnext', Option.map_some, forget_of_unarmed heq]
  rfl

theorem Inv.rest_hidden (h : s.Inv) (hsteps : Steps s a s') (hhidden : s.visible x a = false)
    : s'.rest x = s.rest x :=
  forget_of_unarmed (h.without_hidden hsteps hhidden)

theorem holding_inj {held : List Addr} (h : s.holding held = s'.holding held) : s = s' := by
  obtain ⟨hclock, hqueue, hqueued, hreported, hframe, hended, hran⟩ := TimerLoop.ext_iff.mp h
  exact TimerLoop.ext hclock hqueue (List.append_cancel_right hqueued) hreported hframe hended hran

theorem without_holding {held : List Addr} (h : ∀ timer ∈ held, s.queue.isAt x timer = false)
    : (s.holding held).without x = (s.without x).holding held := by
  have hqueued : ((s.queued ++ held).filter fun timer => !s.queue.isAt x timer)
      = (s.queued.filter fun timer => !s.queue.isAt x timer) ++ held := by
    rw [List.filter_append, filter_isAt h]
  exact TimerLoop.ext rfl rfl hqueued rfl rfl rfl rfl

theorem rest_holding {held : List Addr} (h : ∀ timer ∈ held, s.queue.isAt x timer = false)
    : (s.holding held).rest x = (s.rest x).holding held :=
  congrArg (forget · true x) (without_holding h)

-- a cancellation of a deleted timer leaves a mark at most
theorem forget_cancel (hdeleted : s.queue.Deleted x) (hsteps : Steps s (.cancel x) s')
    : s.forget false x = s'.forget false x := by
  generalize ha : (Label.cancel x : Label φ) = a at hsteps
  cases hsteps with
  | cancelPending timer t _ ht _ =>
    cases ha
    have hnot := hdeleted timer
    rw [Bool.eq_false_iff, ne_eq, isAt_iff] at hnot
    exact absurd ⟨rfl, t, ht, rfl⟩ hnot
  | cancelOther =>
    cases ha
    have hqueue : s.queue.forget false x = (s.queue.canceling x).forget false x := by
      unfold canceling
      split
      . refine TimerQueue.ext rfl rfl rfl rfl ?_ rfl rfl rfl
        apply SortedSet.ext
        intro key
        simp only [TimerQueue.forget, SortedSet.mem_erase, SortedSet.mem_insert]
        tauto
      . rfl
    exact TimerLoop.ext rfl hqueue rfl rfl rfl rfl rfl
  | _ => cases ha

theorem visible_holding {held : List Addr} (hnext : s.next a = some s')
    : (s.holding held).visible x a = s.visible x a := by
  cases a with
  | addTimerInLoop =>
    obtain ⟨timer, queued, heq⟩ := List.exists_cons_of_ne_nil (queued_of_next hnext rfl)
    simp only [visible, holding, heq, List.cons_append, List.head?_cons]
  | _ => rfl

theorem enabledAnyTime_forget : (s.forget false x).enabledAnyTime a = s.enabledAnyTime a := by
  have hframe : (s.forget false x).frame = s.frame := by
    simp only [forget, Bool.not_false, Bool.true_and, Option.map_id']
  cases a with
  | tick | createTimer => rfl
  | addTimerInLoop | handleRead | run | return_ | reset | cancel =>
    simp only [enabledAnyTime, enabled, inUserCode, hframe]
  | addTimer | report =>
    simp only [enabledAnyTime, enabled, inUserCode, hframe]
    rfl

end TimerLoop

namespace TimerThreads

open TimerQueue

variable {s s' : TimerThreads φ} {a : Label φ} {x : TimerId}

/--
The timer is not one that a call is still to queue.
-/
structure Passed (s : TimerThreads φ) (x : TimerId) : Prop where
  loop : (s.loop.holding s.held).Inv
  issued : s.loop.Issued x
  held : ∀ created ∈ s.allocated, created.sequence ≠ x.sequence
    ∧ ∃ t, s.loop.queue.heap created.timer = some t ∧ t.sequence = created.sequence

theorem Passed.isAt (h : s.Passed x) {timer : Addr} (hmem : timer ∈ s.held) : s.loop.queue.isAt x timer = false := by
  obtain ⟨created, hcreated, rfl⟩ := List.mem_map.mp hmem
  obtain ⟨hne, t, ht, hsequence⟩ := h.held created hcreated
  rw [Bool.eq_false_iff, ne_eq, isAt_iff]
  rintro ⟨_, t', ht', hsequence'⟩
  rw [ht, Option.some.injEq] at ht'
  apply hne
  rw [← hsequence, ht', hsequence']

theorem Passed.rest_holding (h : s.Passed x)
    : (s.loop.holding s.held).rest x = (s.loop.rest x).holding s.held :=
  TimerLoop.rest_holding fun _ => h.isAt

/--
What the steps that concern other timers depend on: the loop apart from the timer, and the calls that are still
to queue theirs.
-/
def kept (s : TimerThreads φ) (x : TimerId) : TimerThreads φ where
  loop := s.loop.forget true x
  allocated := s.allocated
  queued := []
  read := []
  returned := []

def rest (s : TimerThreads φ) (x : TimerId) : TimerThreads φ :=
  { s with loop := s.loop.without x }.kept x

def visible (s : TimerThreads φ) (x : TimerId) : Label φ → Bool
  | .loop a => s.loop.visible x a
  | .allocate .. | .queueInLoop _ => true
  | .readSequence .. | .return_ _ => false

-- the steps of a run that concern other timers
def trace (x : TimerId) (s : TimerThreads φ) : List (Label φ) → List (Label φ)
  | [] => []
  | a :: as =>
    match s.next a with
    | none => []
    | some s' => if s.visible x a then a :: trace x s' as else trace x s' as

-- what comes of the others when they take these steps
def replay (x : TimerId) (s : TimerThreads φ) : List (Label φ) → Option (TimerThreads φ)
  | [] => some s
  | a :: as => ((s.next a).map (·.kept x)).bind fun s => replay x s as

-- a timer that is still to be queued stays where it is
theorem Passed.held_step (h : s.Passed x) {a : TimerLoop.Label φ} {view : TimerLoop φ}
    (hsteps : TimerLoop.Steps (s.loop.holding s.held) a view) {created : TimerId} (hmem : created ∈ s.allocated)
    : created.sequence ≠ x.sequence
        ∧ ∃ t, view.queue.heap created.timer = some t ∧ t.sequence = created.sequence := by
  obtain ⟨hne, t, ht, hsequence⟩ := h.held created hmem
  have hheld : created.timer ∈ s.loop.queued ++ s.held := List.mem_append_right _ (List.mem_map_of_mem hmem)
  refine ⟨hne, t, hsteps.heap_kept ht ?_ ?_, hsequence⟩
  . intro hnotMem
    exact absurd (List.mem_append_right _ hheld) hnotMem
  . intro _ hbatch
    exact (List.nodup_append.mp h.loop.owns.nodup).2.2 _ hbatch _ hheld rfl

theorem Passed.step (h : s.Passed x) (hstep : (system φ).step s a = some s') : s'.Passed x := by
  obtain ⟨henabled, hnext⟩ := LTS.guarded_step.mp hstep
  have hissued : (s.loop.holding s.held).Issued x := h.issued.of_queue rfl
  cases a with
  | loop a =>
    simp only [next, Option.map_eq_some_iff] at hnext
    obtain ⟨loop, hloop, rfl⟩ := hnext
    have hsteps := steps_loop h.loop henabled hloop
    refine ⟨h.loop.of_steps hsteps, (hissued.step hsteps).of_queue rfl, ?_⟩
    intro created hmem
    exact h.held_step hsteps hmem
  | allocate timer cb when_ interval =>
    have hsteps := steps_allocate h.loop henabled hnext
    refine ⟨h.loop.of_steps hsteps, (hissued.step hsteps).of_queue rfl, ?_⟩
    have hle := h.issued.numCreated
    simp only [next, Option.some.injEq] at hnext
    subst hnext
    intro created hmem
    rw [List.mem_append, List.mem_singleton] at hmem
    cases hmem with
    | inl hold => exact h.held_step hsteps hold
    | inr hnew =>
      subst hnew
      refine ⟨?_, _, Function.update_self .., rfl⟩
      dsimp only [Timer.new]
      omega
  | queueInLoop i =>
    have hview := inv_queueInLoop h.loop hnext
    simp only [next, Option.map_eq_some_iff] at hnext
    obtain ⟨created, _, rfl⟩ := hnext
    refine ⟨hview, h.issued.of_queue rfl, ?_⟩
    intro c hmem
    exact h.held c (List.mem_of_mem_eraseIdx hmem)
  | readSequence i garbage =>
    simp only [next, Option.map_eq_some_iff] at hnext
    obtain ⟨created, _, rfl⟩ := hnext
    exact ⟨h.loop, h.issued, h.held⟩
  | return_ i =>
    simp only [next, Option.map_eq_some_iff] at hnext
    obtain ⟨r, _, rfl⟩ := hnext
    exact ⟨h.loop, h.issued, h.held⟩

theorem Passed.visible_loop (h : s.Passed x) {a : TimerLoop.Label φ} {loop : TimerLoop φ}
    (henabled : s.enabled (.loop a) = true) (hloop : s.loop.next a = some loop)
    (h' : Passed { s with loop := loop } x) (hvisible : s.loop.visible x a = true)
    : ((s.loop.rest x).next a).map (·.forget true x) = some (loop.rest x) := by
  obtain ⟨hcreates, hview_enabled, _⟩ := enabled_loop henabled
  have hview := TimerLoop.next_holding s.held hcreates hloop
  have hissued : (s.loop.holding s.held).Issued x := h.issued.of_queue rfl
  have hstep := h.loop.rest_visible hissued hview_enabled hview
    ((TimerLoop.visible_holding hloop).trans hvisible)
  have hrest : (loop.holding s.held).rest x = (loop.rest x).holding s.held := h'.rest_holding
  have hqueued : a = .addTimerInLoop → (s.loop.rest x).queued ≠ [] := by
    rintro rfl
    obtain ⟨timer, queued, heq⟩ := List.exists_cons_of_ne_nil (TimerLoop.queued_of_next hloop rfl)
    have hother : s.loop.queue.isAt x timer = false := by
      simpa [TimerLoop.visible, heq] using hvisible
    simp [TimerLoop.rest, TimerLoop.forget, TimerLoop.without, heq, hother]
  rw [h.rest_holding, hrest, TimerLoop.next_holding_eq s.held hcreates hqueued, Option.map_map,
    Option.map_eq_some_iff] at hstep
  obtain ⟨o, ho, heq⟩ := hstep
  rw [ho, Option.map_some]
  have hforget : (o.forget true x).holding s.held = (loop.rest x).holding s.held := heq
  rw [TimerLoop.holding_inj hforget]

theorem Passed.visible_allocate (h : s.Passed x) {timer : Addr} {cb : φ} {when_ : Timestamp} {interval : Rat}
    (halloc : s.loop.allocates timer = true) (hnext : s.next (.allocate timer cb when_ interval) = some s')
    (h' : s'.Passed x)
    : ((s.rest x).next (.allocate timer cb when_ interval)).map (·.kept x) = some (s'.rest x) := by
  have hheld : s'.held = s.held ++ [timer] := by
    simp only [next, Option.some.injEq] at hnext
    subst hnext
    exact List.map_append
  have hview : (s.loop.holding s.held).next (.createTimer timer cb when_ interval)
      = some (s'.loop.holding s'.held) := by
    rw [hheld]
    simp only [next, Option.some.injEq] at hnext
    subst hnext
    refine congrArg some (TimerLoop.ext rfl rfl ?_ rfl rfl rfl rfl)
    exact List.append_assoc ..
  have hissued : (s.loop.holding s.held).Issued x := h.issued.of_queue rfl
  have henabled : (s.loop.holding s.held).enabledAnyTime (.createTimer timer cb when_ interval) = true := halloc
  have hstep := h.loop.rest_visible hissued henabled hview rfl
  rw [h.rest_holding, h'.rest_holding, hheld] at hstep
  let queue := (s.loop.rest x).queue.allocated timer (Timer.new cb when_ interval s.loop.queue.numCreated)
  have hloop : ({ s.loop.rest x with queue := queue }.forget true x).holding (s.held ++ [timer])
      = (s'.loop.rest x).holding (s.held ++ [timer]) := by
    rw [← Option.some.inj hstep]
    refine TimerLoop.ext rfl rfl ?_ rfl rfl rfl rfl
    exact (List.append_assoc _ s.held [timer]).symm
  have hforget := TimerLoop.holding_inj hloop
  simp only [next, Option.some.injEq] at hnext
  subst hnext
  exact congrArg (fun loop => some (TimerThreads.mk loop _ [] [] [])) hforget

theorem Passed.visible_queueInLoop (h : s.Passed x) {i : Nat} (hnext : s.next (.queueInLoop i) = some s')
    : ((s.rest x).next (.queueInLoop i)).map (·.kept x) = some (s'.rest x) := by
  simp only [next, Option.map_eq_some_iff] at hnext
  obtain ⟨created, hcreated, rfl⟩ := hnext
  have hother : ∀ timer ∈ [created.timer], s.loop.queue.isAt x timer = false := by
    intro timer hmem
    rw [List.mem_singleton] at hmem
    subst hmem
    exact h.isAt (List.mem_map_of_mem (List.mem_of_getElem? hcreated))
  have hloop : { s.loop.rest x with queued := (s.loop.rest x).queued ++ [created.timer] }.forget true x
      = { s.loop with queued := s.loop.queued ++ [created.timer] }.rest x := by
    have hrest := TimerLoop.rest_holding (s := s.loop) hother
    exact (congrArg (TimerLoop.forget · true x) hrest.symm).trans (TimerLoop.forget_forget _)
  have hallocated : (s.rest x).allocated[i]? = some created := hcreated
  simp only [next, hallocated, Option.map_some]
  exact congrArg (fun loop => some (TimerThreads.mk loop _ [] [] [])) hloop

theorem Passed.visible (h : s.Passed x) (hstep : (system φ).step s a = some s') (hvisible : s.visible x a = true)
    : ((s.rest x).next a).map (·.kept x) = some (s'.rest x) := by
  have h' := h.step hstep
  obtain ⟨henabled, hnext⟩ := LTS.guarded_step.mp hstep
  cases a with
  | loop a =>
    simp only [next, Option.map_eq_some_iff] at hnext
    obtain ⟨loop, hloop, rfl⟩ := hnext
    have hrest := h.visible_loop henabled hloop ⟨h'.loop, h'.issued, h'.held⟩ hvisible
    rw [Option.map_eq_some_iff] at hrest
    obtain ⟨o, ho, heq⟩ := hrest
    have hloop' : (s.rest x).loop.next a = some o := ho
    simp only [next, hloop', Option.map_some, kept]
    rw [heq]
    rfl
  | allocate timer cb when_ interval => exact h.visible_allocate henabled hnext h'
  | queueInLoop i => exact h.visible_queueInLoop hnext
  | readSequence | return_ => cases hvisible

theorem Passed.hidden (h : s.Passed x) (hstep : (system φ).step s a = some s') (hhidden : s.visible x a = false)
    : s'.rest x = s.rest x := by
  have h' := h.step hstep
  obtain ⟨henabled, hnext⟩ := LTS.guarded_step.mp hstep
  cases a with
  | loop a =>
    simp only [next, Option.map_eq_some_iff] at hnext
    obtain ⟨loop, hloop, rfl⟩ := hnext
    have hsteps := steps_loop h.loop henabled hloop
    have hrest := h.loop.rest_hidden hsteps ((TimerLoop.visible_holding hloop).trans hhidden)
    have hholding : (loop.holding s.held).rest x = (loop.rest x).holding s.held := h'.rest_holding
    rw [h.rest_holding, hholding] at hrest
    have hloop' := TimerLoop.holding_inj hrest
    simp only [rest, kept]
    exact congrArg (TimerThreads.mk · s.allocated [] [] []) hloop'
  | allocate | queueInLoop => cases hhidden
  | readSequence i garbage =>
    simp only [next, Option.map_eq_some_iff] at hnext
    obtain ⟨created, _, rfl⟩ := hnext
    rfl
  | return_ i =>
    simp only [next, Option.map_eq_some_iff] at hnext
    obtain ⟨r, _, rfl⟩ := hnext
    rfl

theorem Passed.replay (h : s.Passed x) {as : List (Label φ)} (hrun : (system φ).run s as = some s')
    : (s.rest x).replay x (s.trace x as) = some (s'.rest x) := by
  induction as generalizing s with
  | nil =>
    simp only [LTS.run, Option.some.injEq] at hrun
    rw [hrun]
    rfl
  | cons a as ih =>
    simp only [LTS.run, Option.bind_eq_some_iff] at hrun
    obtain ⟨s₁, hstep, hrest⟩ := hrun
    have hrec := ih (h.step hstep) hrest
    have hnext := (LTS.guarded_step.mp hstep).2
    simp only [trace, hnext]
    split
    . next hvisible => rw [TimerThreads.replay, h.visible hstep hvisible, Option.bind_some, hrec]
    . next hhidden => rw [← h.hidden hstep (Bool.eq_false_of_not_eq_true hhidden), hrec]

-- the mark that a cancellation may have left is forgotten
def forget (s : TimerThreads φ) (x : TimerId) : TimerThreads φ :=
  { s with loop := s.loop.forget false x }

theorem enabled_forget : (s.forget x).enabled a = s.enabled a := by
  cases a with
  | loop a =>
    have hloop := TimerLoop.enabledAnyTime_forget (s := s.loop) (a := a) (x := x)
    cases a with
    | createTimer => rfl
    | cancel timerId => exact congrArg (· && s.knows timerId) hloop
    | _ => exact hloop
  | _ => rfl

theorem next_forget (h : s.loop.queue.Deleted x)
    : ((s.forget x).next a).map (·.forget x) = (s.next a).map (·.forget x) := by
  have hloop : (s.loop.forget false x).forget false x = s.loop.forget false x := TimerLoop.forget_forget _
  cases a with
  | loop a =>
    have hnext : ((s.loop.forget false x).next a).map (·.forget false x) = (s.loop.next a).map (·.forget false x) :=
      TimerLoop.next_forget h
    simp only [next, Option.map_map]
    refine TimerLoop.map_congr_of_map hnext ?_
    intro o o' heq
    have hheap : (o.forget false x).queue.heap = (o'.forget false x).queue.heap :=
      congrArg (fun l : TimerLoop φ => l.queue.heap) heq
    change o.queue.heap = o'.queue.heap at hheap
    have hadded : (s.forget x).added { s.forget x with loop := o } a = s.added { s with loop := o' } a := by
      cases a with
      | addTimer timer cb when_ interval =>
        simp only [added, reads, hheap]
        rfl
      | _ => rfl
    simp only [Function.comp_apply, hadded]
    exact congrArg (TimerThreads.mk · s.allocated s.queued s.read _) heq
  | allocate timer cb when_ interval =>
    have hnew := congrArg (fun l : TimerLoop φ =>
      { l with queue := l.queue.allocated timer (Timer.new cb when_ interval s.loop.queue.numCreated) }) hloop
    exact congrArg (fun l => some (TimerThreads.mk l _ s.queued s.read s.returned)) hnew
  | queueInLoop i =>
    simp only [next, Option.map_map]
    apply Option.map_congr
    intro created _
    have hnew := congrArg (fun l : TimerLoop φ => { l with queued := l.queued ++ [created.timer] }) hloop
    exact congrArg (TimerThreads.mk · _ _ s.read s.returned) hnew
  | readSequence i garbage =>
    simp only [next, Option.map_map]
    apply Option.map_congr
    intro created _
    exact congrArg (TimerThreads.mk · s.allocated _ _ s.returned) hloop
  | return_ i =>
    simp only [next, Option.map_map]
    apply Option.map_congr
    intro r _
    exact congrArg (TimerThreads.mk · s.allocated s.queued _ _) hloop

theorem step_forget (h : s.loop.queue.Deleted x)
    : ((system φ).step (s.forget x) a).map (·.forget x) = ((system φ).step s a).map (·.forget x) := by
  have hstep : ∀ t : TimerThreads φ, (system φ).step t a = if t.enabled a = true then t.next a else none :=
    fun _ => rfl
  rw [hstep, hstep, enabled_forget]
  split
  . exact next_forget h
  . rfl

theorem Passed.deleted_step (h : s.Passed x) (hdeleted : s.loop.queue.Deleted x)
    (hstep : (system φ).step s a = some s') : s'.loop.queue.Deleted x := by
  obtain ⟨henabled, hnext⟩ := LTS.guarded_step.mp hstep
  have hsteps : ∀ a (loop : TimerLoop φ) held, TimerLoop.Steps (s.loop.holding s.held) a (loop.holding held) →
      loop.queue.Deleted x := by
    intro a loop held hsteps timer
    have hissued := h.issued.numCreated
    rw [Bool.eq_false_iff, ne_eq, isAt_iff]
    rintro ⟨hx, t', ht', hsequence⟩
    cases hsteps.heirs.heap timer t' ht' with
    | inl hold =>
      obtain ⟨t, ht, heq⟩ := hold
      have hnot := hdeleted timer
      rw [Bool.eq_false_iff, ne_eq, isAt_iff] at hnot
      exact hnot ⟨hx, t, ht, heq ▸ hsequence⟩
    | inr hnew =>
      have hnumCreated : (s.loop.holding s.held).queue.numCreated = s.loop.queue.numCreated := rfl
      omega
  cases a with
  | loop a =>
    simp only [next, Option.map_eq_some_iff] at hnext
    obtain ⟨loop, hloop, rfl⟩ := hnext
    exact hsteps _ _ _ (steps_loop h.loop henabled hloop)
  | allocate timer cb when_ interval => exact hsteps _ _ _ (steps_allocate h.loop henabled hnext)
  | queueInLoop i =>
    simp only [next, Option.map_eq_some_iff] at hnext
    obtain ⟨created, _, rfl⟩ := hnext
    exact hdeleted
  | readSequence i garbage =>
    simp only [next, Option.map_eq_some_iff] at hnext
    obtain ⟨created, _, rfl⟩ := hnext
    exact hdeleted
  | return_ i =>
    simp only [next, Option.map_eq_some_iff] at hnext
    obtain ⟨r, _, rfl⟩ := hnext
    exact hdeleted

-- no run tells whether the mark of a deleted timer is there
theorem Passed.run_forget (h : s.Passed x) (hdeleted : s.loop.queue.Deleted x) (h' : s'.Passed x)
    (hdeleted' : s'.loop.queue.Deleted x) (heq : s.forget x = s'.forget x) (as : List (Label φ))
    : ((system φ).run s as).map (·.forget x) = ((system φ).run s' as).map (·.forget x) := by
  refine LTS.run_map_congr (fun s => s.Passed x ∧ s.loop.queue.Deleted x) ?_ ?_ as ⟨h, hdeleted⟩ ⟨h', hdeleted'⟩ heq
  . intro s a s' hs hstep
    exact ⟨hs.1.step hstep, hs.1.deleted_step hs.2 hstep⟩
  . intro s s' a hs hs' heq
    rw [← step_forget hs.2, heq, step_forget hs'.2]

/--
What a cancellation leaves as it is, from `s`, where it is executed, to `s'`: the stage of every other timer,
what becomes of the others in the steps that concern them, and all if the timer is already deleted.
-/
structure Spares (s s' : TimerThreads φ) (x : TimerId) : Prop where
  stage : ∀ timer t, s.loop.queue.heap timer = some t → { timer := timer, sequence := t.sequence : TimerId } ≠ x →
    s'.loop.queue.heap timer = some t
      ∧ (∀ when_, toLex (when_, timer) ∈ s'.loop.queue.timers ↔ toLex (when_, timer) ∈ s.loop.queue.timers)
      ∧ (toLex (timer, t.sequence) ∈ s'.loop.queue.activeTimers
          ↔ toLex (timer, t.sequence) ∈ s.loop.queue.activeTimers)
      ∧ (toLex (timer, t.sequence) ∈ s'.loop.queue.cancelingTimers
          ↔ toLex (timer, t.sequence) ∈ s.loop.queue.cancelingTimers)
  others : { s' with loop := s'.loop.without x } = { s with loop := s.loop.without x }
  future : ∀ as as' s₁ s₁', (system φ).run s as = some s₁ → (system φ).run s' as' = some s₁' →
    s.trace x as = s'.trace x as' → s₁.rest x = s₁'.rest x
  deleted : (∀ t, s.loop.queue.heap x.timer = some t → t.sequence ≠ x.sequence) →
    ∀ as, ((system φ).run s as).map (·.forget x) = ((system φ).run s' as).map (·.forget x)

-- what the others are tells the stage of each
theorem stage_of_without {loop loop' : TimerLoop φ} (h : loop'.without x = loop.without x) {timer : Addr} {t : Timer φ}
    (ht : loop.queue.heap timer = some t) (hother : { timer := timer, sequence := t.sequence : TimerId } ≠ x)
    : loop'.queue.heap timer = some t
        ∧ (∀ when_, toLex (when_, timer) ∈ loop'.queue.timers ↔ toLex (when_, timer) ∈ loop.queue.timers)
        ∧ (toLex (timer, t.sequence) ∈ loop'.queue.activeTimers ↔ toLex (timer, t.sequence) ∈ loop.queue.activeTimers)
        ∧ (toLex (timer, t.sequence) ∈ loop'.queue.cancelingTimers
            ↔ toLex (timer, t.sequence) ∈ loop.queue.cancelingTimers) := by
  have hnotAt : loop.queue.isAt x timer = false := by
    rw [Bool.eq_false_iff, ne_eq, isAt_iff]
    rintro ⟨rfl, t', ht', hsequence⟩
    rw [ht, Option.some.injEq] at ht'
    apply hother
    rw [ht', hsequence]
  have hqueue : loop'.queue.without x = loop.queue.without x := congrArg TimerLoop.queue h
  have hheap : (loop'.queue.without x).heap timer = some t := by
    rw [hqueue]
    exact heap_without_eq_some.mpr ⟨ht, hnotAt⟩
  obtain ⟨ht', hnotAt'⟩ := heap_without_eq_some.mp hheap
  have hkey : (toLex (timer, t.sequence) : ActiveTimer) ≠ toLex (x.timer, x.sequence) := by
    intro heq
    simp only [EmbeddingLike.apply_eq_iff_eq, Prod.mk.injEq] at heq
    exact hother (by rw [heq.1, heq.2])
  refine ⟨ht', ?_, ?_, ?_⟩
  . intro when_
    have hmem := congrArg (toLex (when_, timer) ∈ ·.timers) hqueue
    simpa [TimerQueue.without, SortedSet.mem_filter, hnotAt, hnotAt'] using hmem
  . have hmem := congrArg (toLex (timer, t.sequence) ∈ ·.activeTimers) hqueue
    simpa only [TimerQueue.without, SortedSet.mem_erase, ne_eq, hkey, not_false_eq_true, and_true, eq_iff_iff]
      using hmem
  . have hmem := congrArg (toLex (timer, t.sequence) ∈ ·.cancelingTimers) hqueue
    simpa only [TimerQueue.without, SortedSet.mem_erase, ne_eq, hkey, not_false_eq_true, and_true, eq_iff_iff]
      using hmem

theorem Passed.spares (h : s.Passed x) (hstep : (system φ).step s (.loop (.cancel x)) = some s')
    : s.Spares s' x := by
  have h' := h.step hstep
  obtain ⟨henabled, hnext⟩ := LTS.guarded_step.mp hstep
  simp only [next, added, List.append_nil, Option.map_eq_some_iff] at hnext
  obtain ⟨loop, hloop, rfl⟩ := hnext
  have hsteps := steps_loop h.loop henabled hloop
  have hothers : loop.without x = s.loop.without x := by
    have hwithout : (loop.holding s.held).without x = (s.loop.holding s.held).without x := h.loop.without_cancel hsteps
    have hholding : (loop.holding s.held).without x = (loop.without x).holding s.held :=
      TimerLoop.without_holding fun _ => h'.isAt
    rw [hholding, TimerLoop.without_holding fun _ => h.isAt] at hwithout
    exact TimerLoop.holding_inj hwithout
  refine ⟨?_, ?_, ?_, ?_⟩
  . intro timer t ht hother
    exact stage_of_without hothers ht hother
  . exact congrArg (TimerThreads.mk · s.allocated s.queued s.read s.returned) hothers
  . intro as as' s₁ s₁' hrun hrun' htrace
    have hreplay := h.replay hrun
    have hreplay' := h'.replay hrun'
    have hrest : rest { s with loop := loop } x = s.rest x :=
      congrArg (fun l : TimerLoop φ => TimerThreads.mk (l.forget true x) s.allocated [] [] []) hothers
    rw [hrest, ← htrace, hreplay, Option.some.injEq] at hreplay'
    exact hreplay'
  . intro hnone as
    have hdeleted : s.loop.queue.Deleted x := by
      intro timer
      rw [Bool.eq_false_iff, ne_eq, isAt_iff]
      rintro ⟨rfl, t, ht, hsequence⟩
      exact hnone t ht hsequence
    have hview : (s.loop.forget false x).holding s.held = (loop.forget false x).holding s.held :=
      TimerLoop.forget_cancel (s := s.loop.holding s.held) hdeleted hsteps
    have hforget := TimerLoop.holding_inj hview
    refine h.run_forget hdeleted h' (h.deleted_step hdeleted hstep) ?_ as
    exact congrArg (TimerThreads.mk · s.allocated s.queued s.read s.returned) hforget

theorem Inv.passed (h : s.Inv) {r : AddedTimer} (hr : r ∈ s.returned) : s.Passed r.created := by
  have hmem : r.created ∈ s.calls := List.mem_append_right _ (List.mem_map_of_mem hr)
  refine ⟨h.loop, h.issued _ hmem, ?_⟩
  intro created hcreated
  have hqueued : created ∈ s.allocated ++ s.queued := List.mem_append_left _ hcreated
  refine ⟨?_, h.live created hqueued⟩
  have hknown : s.knows r.timerId = true := by
    simp only [knows, Bool.or_eq_true, List.any_eq_true]
    exact .inr ⟨r, hr, by simp⟩
  rw [← (h.named r (List.mem_append_right _ hr)).1]
  exact h.sequence_ne hqueued hknown

theorem Inv.passed_default (h : s.Inv) : s.Passed { timer := 0, sequence := 0 } := by
  refine ⟨h.loop, ⟨Nat.zero_le _, ?_⟩, ?_⟩
  . intro timer t ht hzero
    have := h.positive timer t ht
    dsimp only at hzero
    omega
  . intro created hcreated
    have hmem : created ∈ s.allocated ++ s.queued := List.mem_append_left _ hcreated
    exact ⟨h.sequence_ne hmem rfl, h.live created hmem⟩

/--
As long as the sequence of every timer that runs only once is read before the `handleRead` that runs it ends,
a cancellation spares all timers but the one that the call of `addTimer` has created.
-/
theorem cancel_spares (s : TimerThreads φ) (h : (system φ).ReachableBy (fun s a => s.inTime a = true) s)
    : (∀ r ∈ s.returned, ∀ s', (system φ).step s (.loop (.cancel r.timerId)) = some s' → s.Spares s' r.created)
        ∧ ∀ s', (system φ).step s (.loop (.cancel { timer := 0, sequence := 0 })) = some s' →
          s.Spares s' { timer := 0, sequence := 0 } := by
  have hinv := inv_reachable h
  constructor
  . intro r hr s' hstep
    rw [(hinv.named r (List.mem_append_right _ hr)).1] at hstep
    exact (hinv.passed hr).spares hstep
  . intro s' hstep
    exact hinv.passed_default.spares hstep

-- two timers of one expiration wait, and a thread has the id of the first
def bothWait : TimerThreads Unit :=
  ((system Unit).runChecked inTime (new 1000000)
    [.allocate 1 () 5 0, .queueInLoop 0, .readSequence 0 0, .return_ 0, .loop .addTimerInLoop,
      .loop (.addTimer 2 () 5 0)]).get rfl

def firstCanceled : TimerThreads Unit :=
  ((system Unit).step bothWait (.loop (.cancel { timer := 1, sequence := 1 }))).get rfl

theorem cancel_spares_bothWait
    : bothWait.returned.map AddedTimer.timerId = [⟨1, 1⟩, ⟨2, 2⟩]
        ∧ firstCanceled.loop.queue.heap 1 = none ∧ Spares bothWait firstCanceled ⟨1, 1⟩ := by
  have hs : (system Unit).ReachableBy (fun s a => s.inTime a = true) bothWait :=
    LTS.ReachableBy.runChecked (fun _ _ => id) (.init ⟨1000000, rfl⟩) (Option.some_get _).symm
  have hr : (⟨⟨1, 1⟩, 1, true⟩ : AddedTimer) ∈ bothWait.returned := by decide
  exact ⟨rfl, rfl, (cancel_spares bothWait hs).1 _ hr firstCanceled (Option.some_get _).symm⟩

def overtakenCanceled : TimerThreads Unit :=
  ((system Unit).step overtaken (.loop (.cancel { timer := 1, sequence := 2 }))).get rfl

theorem cancel_overtaken
    : (system Unit).Reachable overtaken
        ∧ ∃ r ∈ overtaken.returned,
            (system Unit).step overtaken (.loop (.cancel r.timerId)) = some overtakenCanceled
              ∧ overtakenCanceled.loop.queue.heap 1 = none ∧ ¬ Spares overtaken overtakenCanceled r.created := by
  refine ⟨reachable_overtaken, ⟨⟨1, 1⟩, 2, false⟩, by decide, (Option.some_get _).symm, rfl, ?_⟩
  intro h
  obtain ⟨t, ht, hsequence⟩ : ∃ t, overtaken.loop.queue.heap 1 = some t ∧ t.sequence = 2 := ⟨_, rfl, rfl⟩
  have hother : ({ timer := 1, sequence := t.sequence } : TimerId) ≠ ⟨1, 1⟩ := by
    rw [hsequence]
    decide
  have hstage := (h.stage 1 t ht hother).1
  have hnone : overtakenCanceled.loop.queue.heap 1 = none := rfl
  rw [hnone] at hstage
  cases hstage

end TimerThreads

end MyMuduo
