import MyMuduo.TcpConnection.Race

/-!
This module contains when a functor of a connection is executed while the connection still exists.
-/

namespace MyMuduo

namespace TcpConnection

open EventLoop (Thread)

namespace Race

variable {τ : Type}

-- a reference that outlasts the batch that is being executed
def lasting (s : Race τ) : Bool :=
  s.inMap || 0 < s.removing || !s.handles.isEmpty || s.loop.pendingFunctors.any Task.binds

def batched (s : Race τ) : Bool :=
  s.lasting || (s.ran ++ s.loop.functors).any Task.binds

/--
While a functor with the raw pointer waits in `pendingFunctors_`, there is a reference that outlasts the
batch, and while it waits in the batch, there is one or another functor of the batch holds a `shared_ptr`.
-/
def covered (s : Race τ) : Bool :=
  (s.loop.pendingFunctors.all Task.binds || s.lasting) && (s.loop.functors.all Task.binds || s.batched)

/--
A handle is dropped, or `~TcpServer` runs `connectDestroyed` at once, only when the other references still
cover the functors that wait.
-/
def DropsCovered [DecidableEq τ] (s : Race τ) : Label τ → Prop
  | .drop t => { s with handles := s.handles.erase t }.covered = true
  | .destroyServer => { s with inMap := false }.covered = true
  | _ => True

variable {s s' : Race τ}

theorem covered_iff
    : s.covered = true ↔
        (∀ task ∈ s.loop.pendingFunctors, task.binds = false → s.lasting = true)
          ∧ (∀ task ∈ s.loop.functors, task.binds = false → s.batched = true) := by
  have hall : ∀ (tasks : List Task) (test : Bool),
      (tasks.all Task.binds || test) = true ↔ ∀ task ∈ tasks, task.binds = false → test = true := by
    intro tasks test
    cases test <;> simp
  rw [covered, Bool.and_eq_true, hall, hall]

theorem batched_of_lasting (h : s.lasting = true) : s.batched = true := by
  simp [batched, h]

theorem covered_of_lasting (h : s.lasting = true) : s.covered = true := by
  simp [covered, h, batched_of_lasting h]

theorem lasting_of_handle {t : Thread τ} (h : t ∈ s.handles) : s.lasting = true := by
  have hne : s.handles ≠ [] := List.ne_nil_of_mem h
  simp [lasting, hne]

theorem lasting_of_pending (task : Task) (h : task ∈ s.loop.pendingFunctors) (hbinds : task.binds = true)
    : s.lasting = true := by
  have hany : s.loop.pendingFunctors.any Task.binds = true := List.any_eq_true.mpr ⟨task, h, hbinds⟩
  simp [lasting, hany]

theorem refs_eq_nil
    : s.refs = [] ↔
        s.inMap = false ∧ s.removing = 0 ∧ s.removed = 0 ∧ s.handles = []
          ∧ (∀ task ∈ s.ran ++ s.queue, task.binds = false) ∧ s.pc = .idle ∧ s.todo = [] := by
  unfold refs
  simp only [List.append_eq_nil_iff, List.map_eq_nil_iff, List.replicate_eq_nil_iff, List.filter_eq_nil_iff,
    Bool.not_eq_true, and_assoc]
  constructor
  . rintro ⟨hinMap, hremoving, hremoved, hhandles, htasks, hidle⟩
    split at hinMap
    . cases hinMap
    . next hnot =>
      split at hidle
      . next hpc => exact ⟨by simpa using hnot, hremoving, hremoved, hhandles, htasks, hpc⟩
      . cases hidle
  . rintro ⟨hinMap, hremoving, hremoved, hhandles, htasks, hpc⟩
    simp [hinMap, hremoving, hremoved, hhandles, hpc]
    simpa using htasks

/--
What holds as long as every drop is covered.
-/
structure Kept (s : Race τ) : Prop where
  covered : s.covered = true
  callers : ∀ t, s.callers t ≠ .idle → t ∈ s.handles ∨ t = .loop ∧ s.pc ≠ .idle
  tasks : .connectEstablished ∉ s.queue
  freed : s.freed = true → s.refs = []

theorem Kept.queue_of_freed (h : s.Kept) (hfreed : s.freed = true)
    : s.loop.functors = [] ∧ s.loop.pendingFunctors = [] := by
  obtain ⟨hinMap, hremoving, _, hhandles, htasks, _, _⟩ := refs_eq_nil.mp (h.freed hfreed)
  obtain ⟨hpending, hfunctors⟩ := covered_iff.mp h.covered
  have hnone : ∀ tasks : List Task, (∀ task ∈ tasks, task ∈ s.ran ++ s.queue) → tasks.any Task.binds = false := by
    intro tasks hsub
    rw [List.any_eq_false]
    intro task hmem
    rw [htasks task (hsub task hmem)]
    exact Bool.false_ne_true
  have hlasting : s.lasting = false := by
    have hany := hnone s.loop.pendingFunctors (by simp +contextual [Life.queue])
    simp [lasting, hinMap, hremoving, hhandles, hany]
  have hbatched : s.batched = false := by
    have hany := hnone (s.ran ++ s.loop.functors) (by simp +contextual [Life.queue, or_imp])
    rw [batched, hlasting, hany]
    rfl
  constructor
  . apply List.eq_nil_iff_forall_not_mem.mpr
    intro task hmem
    have hwait := hfunctors task hmem (htasks task (by simp [Life.queue, hmem]))
    rw [hbatched] at hwait
    cases hwait
  . apply List.eq_nil_iff_forall_not_mem.mpr
    intro task hmem
    have hwait := hpending task hmem (htasks task (by simp [Life.queue, hmem]))
    rw [hlasting] at hwait
    cases hwait

/--
A step that gives up no reference, takes nothing into the batch, and queues what is covered.
-/
theorem covered_of_frame (h : s.covered = true) (hinMap : s'.inMap = s.inMap)
    (hremoving : s.removing ≤ s'.removing) (hhandles : s.handles ≠ [] → s'.handles ≠ []) (tasks : List Task)
    (hpending : s'.loop.pendingFunctors = s.loop.pendingFunctors ++ tasks)
    (htasks : ∀ task ∈ tasks, task.binds = false → s'.lasting = true)
    (hbatch : s'.ran ++ s'.loop.functors = s.ran ++ s.loop.functors)
    (hfunctors : ∀ task ∈ s'.loop.functors, task ∈ s.loop.functors) : s'.covered = true := by
  have hlasting : s.lasting = true → s'.lasting = true := by
    simp only [lasting, hinMap, hpending, List.any_append, Bool.or_eq_true, decide_eq_true_eq,
      Bool.not_eq_true', List.isEmpty_eq_false_iff]
    rintro (((hmap | hremoval) | hhandle) | hbinds)
    . exact .inl (.inl (.inl hmap))
    . exact .inl (.inl (.inr (Nat.lt_of_lt_of_le hremoval hremoving)))
    . exact .inl (.inr (hhandles hhandle))
    . exact .inr (.inl hbinds)
  obtain ⟨hwaiting, hbatched⟩ := covered_iff.mp h
  refine covered_iff.mpr ⟨?_, ?_⟩
  . intro task hmem hraw
    rw [hpending, List.mem_append] at hmem
    cases hmem with
    | inl hmem => exact hlasting (hwaiting task hmem hraw)
    | inr hmem => exact htasks task hmem hraw
  . intro task hmem hraw
    have hcover := hbatched task (hfunctors task hmem) hraw
    rw [batched, Bool.or_eq_true] at hcover ⊢
    rw [hbatch]
    obtain hlast | hbinds := hcover
    . exact .inl (hlasting hlast)
    . exact .inr hbinds

theorem Kept.callers_of_idle (h : s.Kept) (hidle : s.callers .loop = .idle) {t : Thread τ}
    (ht : s.callers t ≠ .idle) : t ∈ s.handles := by
  obtain hmem | ⟨rfl, _⟩ := h.callers t ht
  . exact hmem
  . exact absurd hidle ht

/--
A step of the loop thread that queues callbacks of the user at most.
-/
theorem Kept.of_loop (h : s.Kept) (fs : List Functor) (halive : s.freed = false)
    (hidle : s.callers .loop = .idle) (hpending : s'.loop.pendingFunctors = s.loop.pendingFunctors ++ fs.map .own)
    (hfs : ∀ f ∈ fs, f.isNotice = true) (hfunctors : s'.loop.functors = s.loop.functors) (hran : s'.ran = s.ran)
    (hinMap : s'.inMap = s.inMap) (hremoving : s.removing ≤ s'.removing) (hhandles : s'.handles = s.handles)
    (hcallers : s'.callers = s.callers) (hfreed : s'.freed = s.freed) : s'.Kept := by
  refine ⟨?_, ?_, ?_, ?_⟩
  . apply covered_of_frame h.covered hinMap hremoving (fun hne => hhandles ▸ hne) (fs.map .own) hpending
    . intro task hmem hraw
      obtain ⟨f, hf, rfl⟩ := List.mem_map.mp hmem
      rw [Task.binds, hfs f hf] at hraw
      cases hraw
    . rw [hran, hfunctors]
    . rw [hfunctors]
      exact fun _ hmem => hmem
  . intro t ht
    rw [hcallers] at ht
    rw [hhandles]
    exact .inl (h.callers_of_idle hidle ht)
  . rw [Life.queue, hfunctors, hpending]
    exact Life.tasks_of_pending h.tasks (fun _ hmem => hmem) (Life.not_mem_own fs)
  . rw [hfreed, halive]
    exact fun hfreed => absurd hfreed Bool.false_ne_true

theorem Kept.of_mild {c : TcpConnection} {notices : List Notice} (h : s.Kept) (halive : s.freed = false)
    (hidle : s.callers .loop = .idle) (hmild : Mild s.conn s.loop c s'.loop notices) (hran : s'.ran = s.ran)
    (hinMap : s'.inMap = s.inMap) (hremoving : s'.removing = s.removing) (hhandles : s'.handles = s.handles)
    (hcallers : s'.callers = s.callers) (hfreed : s'.freed = s.freed) : s'.Kept := by
  obtain ⟨fs, hpending, hfs⟩ := hmild.queued
  exact h.of_loop fs halive hidle hpending hfs hmild.functors hran hinMap (Nat.le_of_eq hremoving.symm) hhandles
    hcallers hfreed

-- a step of the loop thread that queues nothing
theorem Kept.of_still (h : s.Kept) (halive : s.freed = false) (hidle : s.callers .loop = .idle)
    (hpending : s'.loop.pendingFunctors = s.loop.pendingFunctors) (hfunctors : s'.loop.functors = s.loop.functors)
    (hran : s'.ran = s.ran) (hinMap : s'.inMap = s.inMap) (hremoving : s.removing ≤ s'.removing)
    (hhandles : s'.handles = s.handles) (hcallers : s'.callers = s.callers) (hfreed : s'.freed = s.freed)
    : s'.Kept :=
  h.of_loop [] halive hidle (hpending.trans (List.append_nil _).symm) (by simp) hfunctors hran hinMap hremoving
    hhandles hcallers hfreed

theorem Kept.startDestroy (h : s.Kept) (halive : s.freed = false) (hidle : s.callers .loop = .idle)
    (hstart : s.startDestroy = some s') : s'.Kept := by
  obtain ⟨_, rfl⟩ | ⟨_, conn, loop, hremove, rfl⟩ := startDestroy_cases hstart
  . exact h.of_still halive hidle rfl rfl rfl rfl (Nat.le_refl _) rfl rfl rfl
  . obtain ⟨hpending, hfunctors⟩ := removeChannel_loop hremove
    exact h.of_still halive hidle hpending hfunctors rfl rfl (Nat.le_refl _) rfl rfl rfl

theorem Kept.callback {n : Int} {w : WriteResult} (h : s.Kept) (halive : s.freed = false)
    (hidle : s.callers .loop = .idle) (hpc : s.pc = .idle) (hcallback : s.callback n w = some s') : s'.Kept := by
  obtain ⟨_, _, _, ⟨_, rfl⟩ | ⟨conn, loop, notices, pc, hmild, _, rfl⟩⟩ := callback_cases hpc hcallback
  . exact h.of_still halive hidle rfl rfl rfl rfl (Nat.le_refl _) rfl rfl rfl
  . exact h.of_mild halive hidle hmild rfl rfl rfl rfl rfl rfl

theorem Kept.pop {task : Task} {functors : List Task} (h : s.Kept) (halive : s.freed = false)
    (hidle : s.callers .loop = .idle) (hfunctors : s.loop.functors = task :: functors)
    : (s.pop task functors).Kept := by
  have hsub : ∀ task' ∈ functors, task' ∈ s.loop.functors := by
    rw [hfunctors]
    exact fun _ hmem => List.mem_cons_of_mem _ hmem
  refine ⟨?_, fun t ht => .inl (h.callers_of_idle hidle ht), ?_, ?_⟩
  . refine covered_of_frame h.covered rfl (Nat.le_refl _) id [] (List.append_nil _).symm (by simp) ?_ hsub
    simp [Race.pop, hfunctors]
  . have htasks := Life.tasks_of_pending h.tasks hsub (List.not_mem_nil (a := Task.connectEstablished))
    rwa [List.append_nil] at htasks
  . exact fun hfreed => absurd (halive.symm.trans hfreed) Bool.false_ne_true

theorem Kept.runFunctor {message : List UInt8} {w : WriteResult} (h : s.Kept) (halive : s.freed = false)
    (hidle : s.callers .loop = .idle) (hrun : s.runFunctor message w = some s') : s'.Kept := by
  obtain ⟨task, functors, hfunctors, hcases⟩ := runFunctor_cases h.tasks hrun
  have hpop := h.pop halive hidle hfunctors
  obtain ⟨_, hstart⟩ | ⟨_, rfl⟩ | ⟨_, conn, loop, notices, pc, hmild, _, rfl⟩ := hcases
  . exact hpop.startDestroy halive hidle hstart
  . exact hpop.of_still halive hidle rfl rfl rfl rfl (Nat.le_refl _) rfl rfl rfl
  . exact hpop.of_mild halive hidle hmild rfl rfl rfl rfl rfl rfl

theorem Kept.resume (h : s.Kept) (halive : s.freed = false) (hidle : s.callers .loop = .idle)
    (hresume : s.resume = some s') : s'.Kept := by
  unfold Race.resume at hresume
  split at hresume
  . cases hresume
  . simp only [Option.some.injEq] at hresume
    subst hresume
    exact h.of_still halive hidle rfl rfl rfl rfl (Nat.le_refl _) rfl rfl rfl
  . simp only [Option.some.injEq] at hresume
    subst hresume
    exact h.of_still halive hidle rfl rfl rfl rfl (Nat.le_refl _) rfl rfl rfl
  . simp only [Option.map_eq_some_iff] at hresume
    obtain ⟨⟨conn, loop⟩, hdisconnect, rfl⟩ := hresume
    obtain ⟨hpending, hfunctors⟩ := disconnect_loop hdisconnect
    exact h.of_still halive hidle hpending hfunctors rfl rfl (Nat.le_refl _) rfl rfl rfl
  . simp only [Option.some.injEq] at hresume
    subst hresume
    exact h.of_still halive hidle rfl rfl rfl rfl (Nat.le_refl _) rfl rfl rfl
  . simp only [Option.some.injEq] at hresume
    subst hresume
    exact h.of_still halive hidle rfl rfl rfl rfl (Nat.le_succ _) rfl rfl rfl
  . simp only [Option.some.injEq] at hresume
    subst hresume
    exact h.of_still halive hidle rfl rfl rfl rfl (Nat.le_refl _) rfl rfl rfl
  . simp only [Option.map_eq_some_iff] at hresume
    obtain ⟨⟨conn, loop⟩, hdisconnect, rfl⟩ := hresume
    obtain ⟨hpending, hfunctors⟩ := disconnect_loop hdisconnect
    exact h.of_still halive hidle hpending hfunctors rfl rfl (Nat.le_refl _) rfl rfl rfl
  . simp only [Option.some.injEq] at hresume
    subst hresume
    exact h.of_still halive hidle rfl rfl rfl rfl (Nat.le_refl _) rfl rfl rfl
  . simp only [Option.map_eq_some_iff] at hresume
    obtain ⟨⟨conn, loop⟩, hremove, rfl⟩ := hresume
    obtain ⟨hpending, hfunctors⟩ := removeChannel_loop hremove
    exact h.of_still halive hidle hpending hfunctors rfl rfl (Nat.le_refl _) rfl rfl rfl

theorem Kept.queued {task : Task} (h : s.Kept) (halive : s.freed = false) (htask : task ≠ .connectEstablished)
    (hraw : task.binds = false → s.handles ≠ []) (isInLoopThread : Bool)
    : Kept { s with loop := s.loop.queueInLoop isInLoopThread task } := by
  have hfunctors := EventLoop.functors_queueInLoop s.loop isInLoopThread task
  have hpending := EventLoop.pendingFunctors_queueInLoop s.loop isInLoopThread task
  refine ⟨?_, h.callers, ?_, fun hfreed => absurd (halive.symm.trans hfreed) Bool.false_ne_true⟩
  . refine covered_of_frame h.covered rfl (Nat.le_refl _) id [task] hpending ?_ ?_ ?_
    . intro task' hmem hbinds
      obtain rfl := List.mem_singleton.mp hmem
      obtain ⟨t, ht⟩ := List.exists_mem_of_ne_nil _ (hraw hbinds)
      exact lasting_of_handle ht
    . dsimp only
      rw [hfunctors]
    . dsimp only
      rw [hfunctors]
      exact fun _ hmem => hmem
  . simp only [Life.queue, hfunctors, hpending]
    exact Life.tasks_of_pending h.tasks (fun _ hmem => hmem) (by simpa using htask.symm)

theorem Kept.release (h : s.Kept) : s.release.Kept := by
  refine ⟨h.covered, h.callers, h.tasks, ?_⟩
  intro hfreed
  simp only [Race.release, Bool.or_eq_true, List.isEmpty_iff] at hfreed
  obtain hfreed | hrefs := hfreed
  . exact h.freed hfreed
  . exact hrefs

theorem Kept.of_nothing (hrefs : s.refs = []) (hqueue : s.queue = []) (hcallers : ∀ t, s.callers t = .idle)
    : s.Kept := by
  simp only [Life.queue, List.append_eq_nil_iff] at hqueue
  refine ⟨?_, fun t ht => absurd (hcallers t) ht, ?_, fun _ => hrefs⟩
  . simp [Race.covered, hqueue.1, hqueue.2]
  . simp [Life.queue, hqueue.1, hqueue.2]

section

variable [DecidableEq τ]

theorem Kept.setCaller {t : Thread τ} {c : Caller} (h : s.Kept)
    (hc : c ≠ .idle → t ∈ s.handles ∨ t = .loop ∧ s.pc ≠ .idle) : (s.setCaller t c).Kept := by
  refine ⟨h.covered, ?_, h.tasks, h.freed⟩
  intro t' ht'
  simp only [Race.setCaller, Function.update_apply] at ht'
  split at ht'
  . next heq => exact heq ▸ hc ht'
  . exact h.callers t' ht'

theorem Kept.life {a : Life.Label} (h : s.Kept) (halive : s.freed = false)
    (henabled : s.enabled (.life a : Label τ) = true) (hstep : s.lifeStep a = some s') : s'.Kept := by
  simp only [enabled, Bool.and_eq_true] at henabled
  obtain ⟨⟨halone, _⟩, henabled⟩ := henabled
  simp only [lifeStep, halive, Bool.false_eq_true, if_false, Option.map_eq_some_iff] at hstep
  obtain ⟨life, hnext, rfl⟩ := hstep
  have hwaiting := (covered_iff.mp h.covered).1
  cases a with
  | callback | runFunctor | send | shutdown | forceClose => cases halone
  | poll | otherChannels =>
    simp only [Life.next, Option.some.injEq] at hnext
    subst hnext
    exact ⟨h.covered, h.callers, h.tasks, by simp⟩
  | handleEvent =>
    simp only [Life.next, Option.map_eq_some_iff] at hnext
    obtain ⟨_, _, rfl⟩ := hnext
    exact ⟨h.covered, h.callers, h.tasks, by simp⟩
  | swap =>
    simp only [Life.next, Option.some.injEq] at hnext
    subst hnext
    refine ⟨covered_iff.mpr ⟨?_, ?_⟩, h.callers, ?_, by simp⟩
    . simp [EventLoop.swapFunctors]
    . -- what outlasts the old batch is still there, or it is a functor of the new one
      intro task hmem hraw
      have hlasting := hwaiting task hmem hraw
      simp only [lasting, batched, EventLoop.swapFunctors, List.any_append, List.any_nil, Bool.or_false,
        Bool.or_eq_true] at hlasting ⊢
      obtain hkept | hbinds := hlasting
      . exact .inl hkept
      . exact .inr (.inr hbinds)
    . have htasks := h.tasks
      simp only [Life.queue, List.mem_append, not_or] at htasks
      simpa [Life.queue, EventLoop.swapFunctors] using htasks.2
  | endFunctors =>
    simp only [Life.next, Option.some.injEq] at hnext
    subst hnext
    simp only [Life.enabled, Bool.and_eq_true, List.isEmpty_iff] at henabled
    refine ⟨covered_iff.mpr ⟨hwaiting, ?_⟩, h.callers, h.tasks, by simp⟩
    simp [henabled.2]
  | removeConnectionInLoop isInLoopThread =>
    simp only [Life.next, Option.some.injEq] at hnext
    subst hnext
    refine ⟨covered_of_lasting ?_, h.callers, ?_, by simp⟩
    . apply lasting_of_pending .connectDestroyed
      . simp
      . rfl
    . simp only [Life.queue, EventLoop.functors_queueInLoop, EventLoop.pendingFunctors_queueInLoop]
      exact Life.tasks_of_pending h.tasks (fun _ hmem => hmem) (by simp)
  | destroyServer isInLoopThread =>
    cases isInLoopThread with
    | true => cases halone
    | false =>
      simp only [Life.next, Bool.false_eq_true, if_false, Option.some.injEq] at hnext
      subst hnext
      refine ⟨covered_of_lasting ?_, h.callers, ?_, by simp⟩
      . apply lasting_of_pending .connectDestroyed
        . simp
        . rfl
      . simp only [Life.queue, EventLoop.functors_queueInLoop, EventLoop.pendingFunctors_queueInLoop]
        exact Life.tasks_of_pending h.tasks (fun _ hmem => hmem) (by simp)

theorem Kept.advance {t : Thread τ} {contents : List UInt8} {w : WriteResult} (h : s.Kept)
    (halive : s.freed = false) (hadvance : s.advance t contents w = some s') : s'.Kept := by
  have hreturned : (s.setCaller t .idle).Kept := h.setCaller (by simp)
  have hhandle : t ≠ .loop → s.callers t ≠ .idle → s.handles ≠ [] := by
    intro hother hcaller
    obtain hmem | ⟨hloop, _⟩ := h.callers t hcaller
    . exact List.ne_nil_of_mem hmem
    . exact absurd hloop hother
  unfold Race.advance at hadvance
  split at hadvance
  . cases hadvance
  . next hcaller =>
    dsimp only at hadvance
    split at hadvance
    . next hloop =>
      subst hloop
      simp only [Option.map_eq_some_iff] at hadvance
      obtain ⟨⟨conn, loop⟩, hsend, rfl⟩ := hadvance
      exact hreturned.of_mild halive (by simp [Race.setCaller]) (mild_sendInLoop hsend) rfl rfl rfl rfl rfl rfl
    . next hother =>
      simp only [Option.some.injEq] at hadvance
      subst hadvance
      exact hreturned.queued halive (by simp) (fun _ => hhandle hother (by simp [hcaller])) false
  . next hcaller =>
    simp only [Option.some.injEq] at hadvance
    subst hadvance
    have hstored := h.setCaller (c := .shutDown) fun _ => h.callers t (by simp [hcaller])
    exact ⟨hstored.covered, hstored.callers, hstored.tasks, hstored.freed⟩
  . next hcaller =>
    dsimp only at hadvance
    split at hadvance
    . simp only [Option.some.injEq] at hadvance
      subst hadvance
      exact ⟨hreturned.covered, hreturned.callers, hreturned.tasks, hreturned.freed⟩
    . next hother =>
      simp only [Option.some.injEq] at hadvance
      subst hadvance
      exact hreturned.queued halive (by simp) (fun _ => hhandle hother (by simp [hcaller])) false
  . next hcaller =>
    simp only [Option.some.injEq] at hadvance
    subst hadvance
    exact h.setCaller fun _ => h.callers t (by simp [hcaller])
  . next hcaller =>
    simp only [Option.some.injEq] at hadvance
    subst hadvance
    have hstored := h.setCaller (c := .forced) fun _ => h.callers t (by simp [hcaller])
    exact ⟨hstored.covered, hstored.callers, hstored.tasks, hstored.freed⟩
  . simp only [Option.some.injEq] at hadvance
    subst hadvance
    exact hreturned.queued halive (by simp) (by simp [Task.binds]) _

/--
Once the connection is destroyed nothing refers to it again.
-/
theorem Kept.of_freed {a : Label τ} (h : s.Kept) (hfreed : s.freed = true) (henabled : s.enabled a = true)
    (hact : s.act a = some s') : s'.Kept := by
  obtain ⟨hfunctors, hpending⟩ := h.queue_of_freed hfreed
  obtain ⟨hinMap, hremoving, hremoved, hhandles, hran, hpc, htodo⟩ := refs_eq_nil.mp (h.freed hfreed)
  have hcallers : ∀ t, s.callers t = .idle := by
    intro t
    by_contra hcaller
    obtain hmem | ⟨_, hbusy⟩ := h.callers t hcaller
    . simp [hhandles] at hmem
    . exact hbusy hpc
  cases a with
  | life a =>
    simp only [enabled, Bool.and_eq_true] at henabled
    obtain ⟨⟨halone, _⟩, henabled⟩ := henabled
    simp only [act, lifeStep, hfreed, if_true, Option.map_eq_some_iff] at hact
    obtain ⟨life, hnext, rfl⟩ := hact
    have hran' : ∀ task ∈ s.ranBehind a, task.binds = false := by
      intro task hmem
      apply hran task
      cases a <;> simp_all [ranBehind]
    have hlife : life.inMap = false ∧ life.removing = 0 ∧ s.removedBehind a = 0 ∧ life.loop.functors = []
        ∧ life.loop.pendingFunctors = [] := by
      cases a with
      | callback | runFunctor | send | shutdown | forceClose => cases halone
      | poll | otherChannels | swap | endFunctors =>
        simp only [Life.next, Option.some.injEq] at hnext
        subst hnext
        simp [hinMap, hremoving, removedBehind, hremoved, hfunctors, hpending, EventLoop.swapFunctors]
      | handleEvent =>
        simp only [Life.next, Option.map_eq_some_iff] at hnext
        obtain ⟨_, _, rfl⟩ := hnext
        exact ⟨hinMap, hremoving, hremoved, hfunctors, hpending⟩
      | removeConnectionInLoop => simp [Life.enabled, hremoving] at henabled
      | destroyServer => simp [Life.enabled, hinMap] at henabled
    obtain ⟨hinMap', hremoving', hremoved', hfunctors', hpending'⟩ := hlife
    refine .of_nothing (refs_eq_nil.mpr ⟨hinMap', hremoving', hremoved', hhandles, ?_, hpc, rfl⟩) ?_ hcallers
    . simpa [Life.queue, hfunctors', hpending'] using hran'
    . simp [Life.queue, hfunctors', hpending']
  | callback n w => simp [act, Race.callback, htodo] at hact
  | runFunctor message w => simp [act, Race.runFunctor, hfunctors] at hact
  | destroyServer => simp [enabled, hinMap] at henabled
  | resume => simp [act, Race.resume, hpc] at hact
  | endRemovals =>
    simp only [act, Option.some.injEq] at hact
    subst hact
    refine .of_nothing (refs_eq_nil.mpr ⟨hinMap, hremoving, rfl, hhandles, hran, hpc, htodo⟩) ?_ hcallers
    simp [Life.queue, hfunctors, hpending]
  | call t c => simp [enabled, mayCall, hhandles, hpc, LoopPc.hasArgument] at henabled
  | advance t contents w => simp [act, Race.advance, hcallers t] at hact
  | share t => simp [enabled, hhandles, hpc, LoopPc.hasArgument] at henabled
  | drop t => simp [enabled, hhandles] at henabled

theorem Kept.of_alive {a : Label τ} (h : s.Kept) (hok : s.DropsCovered a) (halive : s.freed = false)
    (henabled : s.enabled a = true) (hact : s.act a = some s') : s'.Kept := by
  cases a with
  | life a => exact h.life halive henabled hact
  | callback n w =>
    simp only [enabled, loopIdle, Bool.and_eq_true, decide_eq_true_eq] at henabled
    exact h.callback halive henabled.1.1 henabled.1.2 hact
  | runFunctor message w =>
    simp only [enabled, loopIdle, Bool.and_eq_true, decide_eq_true_eq] at henabled
    exact h.runFunctor halive henabled.1.1 hact
  | destroyServer =>
    simp only [enabled, loopIdle, Bool.and_eq_true, decide_eq_true_eq] at henabled
    have hinMap : Kept { s with inMap := false } :=
      ⟨hok, h.callers, h.tasks, fun hfreed => absurd (halive.symm.trans hfreed) Bool.false_ne_true⟩
    exact hinMap.startDestroy halive henabled.1.1 hact
  | resume =>
    simp only [enabled, decide_eq_true_eq] at henabled
    exact h.resume halive henabled hact
  | endRemovals =>
    simp only [act, Option.some.injEq] at hact
    subst hact
    exact ⟨h.covered, h.callers, h.tasks, fun hfreed => absurd (halive.symm.trans hfreed) Bool.false_ne_true⟩
  | call t c =>
    simp only [act, Option.some.injEq] at hact
    subst hact
    apply h.setCaller
    intro _
    simp only [enabled, mayCall, Bool.and_eq_true, Bool.or_eq_true, decide_eq_true_eq] at henabled
    obtain hhandle | ⟨hloop, hargument⟩ := henabled.2
    . exact .inl hhandle.1
    . refine .inr ⟨hloop, ?_⟩
      intro hpc
      rw [hpc] at hargument
      cases hargument
  | advance t contents w => exact h.advance halive hact
  | share t =>
    simp only [act, Option.some.injEq] at hact
    subst hact
    refine ⟨covered_of_lasting (lasting_of_handle List.mem_cons_self), ?_, h.tasks,
      fun hfreed => absurd (halive.symm.trans hfreed) Bool.false_ne_true⟩
    intro t' ht'
    obtain hmem | hloop := h.callers t' ht'
    . exact .inl (List.mem_cons_of_mem _ hmem)
    . exact .inr hloop
  | drop t =>
    simp only [act, Option.some.injEq] at hact
    subst hact
    refine ⟨hok, ?_, h.tasks, fun hfreed => absurd (halive.symm.trans hfreed) Bool.false_ne_true⟩
    intro t' ht'
    simp only [enabled, Bool.and_eq_true, decide_eq_true_eq] at henabled
    have hne : t' ≠ t := by
      rintro rfl
      exact ht' henabled.1
    obtain hmem | hloop := h.callers t' ht'
    . exact .inl ((List.mem_erase_of_ne hne).mpr hmem)
    . exact .inr hloop

theorem Kept.step {a : Label τ} (h : s.Kept) (hok : s.DropsCovered a) (hstep : (system τ).step s a = some s')
    : s'.Kept := by
  obtain ⟨henabled, hnext⟩ := LTS.guarded_step.mp hstep
  simp only [next, Option.map_eq_some_iff] at hnext
  obtain ⟨s₁, hact, rfl⟩ := hnext
  apply Kept.release
  cases hfreed : s.freed with
  | true => exact h.of_freed hfreed henabled hact
  | false => exact h.of_alive hok hfreed henabled hact

theorem kept_reachable (h : (system τ).ReachableBy DropsCovered s) : s.Kept := by
  apply h.invariant Kept
  . rintro s ⟨hlife, _, hcallers, _, _, _, hfreed, _⟩
    have htasks : ∀ task ∈ s.loop.functors ++ s.loop.pendingFunctors, task.binds = true := by
      intro task hmem
      rw [hlife.conn.2.2.2.2 task hmem]
      rfl
    simp only [List.forall_mem_append] at htasks
    refine ⟨?_, fun t ht => absurd (hcallers t) ht, (Life.Base.init hlife).1.tasks, by simp [hfreed]⟩
    simp only [covered, List.all_eq_true.mpr htasks.1, List.all_eq_true.mpr htasks.2, Bool.true_or, Bool.and_self]
  . exact fun _ _ _ hkept hok hstep => hkept.step hok hstep

/--
A functor is executed only while the connection exists, and so are all the statements of a handler.
-/
theorem exists_at_functor (h : (system τ).ReachableBy DropsCovered s)
    : (∀ message w s', (system τ).step s (.runFunctor message w) = some s' → s.freed = false)
        ∧ (s.pc ≠ .idle → s.freed = false) := by
  have hkept := kept_reachable h
  constructor
  . intro message w s' hstep
    by_contra hfreed
    obtain ⟨_, hnext⟩ := LTS.guarded_step.mp hstep
    have hfunctors := (hkept.queue_of_freed (Bool.not_eq_false _ ▸ hfreed)).1
    simp [next, act, Race.runFunctor, hfunctors] at hnext
  . intro hpc
    by_contra hfreed
    have hrefs := hkept.freed (Bool.not_eq_false _ ▸ hfreed)
    exact hpc (refs_eq_nil.mp hrefs).2.2.2.2.2.1

instance (s : Race τ) (a : Label τ) : Decidable (s.DropsCovered a) :=
  match a with
  | .drop _ | .destroyServer => inferInstanceAs (Decidable (_ = true))
  | .life _ | .callback _ _ | .runFunctor _ _ | .resume | .endRemovals | .call _ _ | .advance _ _ _ | .share _ =>
    inferInstanceAs (Decidable True)

end

-- a thread calls `send` and drops its handle while the functor waits
def sentAndDropped : List (Label Unit) :=
  [.share (.other ()), .resume, .call (.other ()) (.send 100 3), .advance (.other ()) [1, 2, 3] (.accepted 0),
    .drop (.other ()), .life .swap]

theorem exists_at_functor_sentAndDropped
    : ∃ s, (system Unit).runChecked (fun s a => s.DropsCovered a) accepted sentAndDropped = some s
        ∧ s.loop.functors = [.own (.sendInLoop 100 3)] ∧ s.freed = false := by
  have h : (system Unit).runChecked (fun s a => s.DropsCovered a) accepted sentAndDropped = some _ := rfl
  have hexists := exists_at_functor (LTS.ReachableBy.runChecked (by simp) (.init accepted_init) h)
  exact ⟨_, h, rfl, hexists.1 [1, 2, 3] (.accepted 3) _ rfl⟩

-- the connection is closed and removed while the thread is between its test of `state_` and `runInLoop`
def sentBehindRemoval : List (Label Unit) :=
  [.share (.other ()), .resume, .call (.other ()) (.send 100 3), .life .swap, .life .endFunctors,
    .life (.poll (some EPOLLHUP)), .life .handleEvent, .callback 0 (.accepted 0), .resume, .resume, .resume,
    .life (.removeConnectionInLoop false), .endRemovals, .life .swap,
    .advance (.other ()) [1, 2, 3] (.accepted 0), .drop (.other ()), .runFunctor [] (.accepted 0),
    .life .endFunctors, .life (.poll none), .life .swap]

/--
`sendInLoop` is executed for a connection that has been destroyed.
-/
theorem sendInLoop_of_freed
    : ∃ s, (system Unit).Reachable s ∧ s.freed = true ∧ s.loop.functors = [.own (.sendInLoop 100 3)]
        ∧ ((system Unit).step s (.runFunctor [1, 2, 3] (.accepted 3))).isSome = true := by
  have h : (system Unit).run accepted sentBehindRemoval = some _ := rfl
  exact ⟨_, LTS.Reachable.run (.init accepted_init) h, rfl, rfl, rfl⟩

end Race

end TcpConnection

end MyMuduo
