import MyMuduo.Timer.Batch
import MyMuduo.Timer.Schedule

/-!
This module contains what `handleRead` does for every timer, whenever it is called: a timer that nobody
cancels follows its schedule.
-/

namespace MyMuduo

namespace TimerLoop

open TimerQueue

universe u

variable {φ : Type u} {s s' : TimerLoop φ} {a : Label φ}

def runsOf (s : TimerLoop φ) (sequence : Nat) : List Run :=
  s.ran.filter fun r => r.sequence == sequence

-- the schedule of a timer behind the calls of `handleRead` from the number `n` on
def expirationNow (s : TimerLoop φ) (t : Timer φ) (n : Nat) : Option Timestamp :=
  t.expirationAfter (some t.expiration) (s.ended.drop n)

def fired (s : TimerLoop φ) (t : Timer φ) (n : Nat) : List Run :=
  t.firings n (some t.expiration) (s.ended.drop n)

structure Began (s : TimerLoop φ) (n : Nat) : Prop where
  le : n ≤ s.ended.length + 1
  ended : s.frame = none → n ≤ s.ended.length

-- the timer is in the sets
structure InSets (s : TimerLoop φ) (timer : Addr) (t : Timer φ) (n : Nat) (when_ : Timestamp) : Prop where
  expiration : s.expirationNow t n = some when_
  live : s.queue.heap timer = some { t with expiration := when_ }
  notMem : timer ∉ addrs s.batch ++ s.queued
  early : ∀ f, s.frame = some f → n ≤ s.ended.length → f.now < when_
  runs : s.runsOf t.sequence = s.fired t n

-- the timer is in the batch of the call in progress
structure InBatch (s : TimerLoop φ) (timer : Addr) (t : Timer φ) (n : Nat) (when_ : Timestamp)
    (f : HandleRead) : Prop where
  frame : s.frame = some f
  began : n ≤ s.ended.length
  expiration : s.expirationNow t n = some when_
  due : when_ ≤ f.now
  live : s.queue.heap timer = some { t with expiration := when_ }
  mem : timer ∈ addrs f.expired
  notCanceled : toLex (timer, t.sequence) ∉ s.queue.cancelingTimers
  runs : s.runsOf t.sequence = s.fired t n
    ++ if timer ∈ addrs f.todo then [] else t.fire s.ended.length f.start (some when_)

structure Deleted (s : TimerLoop φ) (t : Timer φ) (n : Nat) : Prop where
  expiration : s.expirationNow t n = none
  dead : ∀ a t', s.queue.heap a = some t' → t'.sequence ≠ t.sequence
  numCreated : t.sequence ≤ s.queue.numCreated
  runs : s.runsOf t.sequence = s.fired t n

/--
The timer `t`, inserted at the address `timer` in front of the call with the number `n`, is where its
schedule says, and its callbacks are those of the schedule.
-/
def Follows (s : TimerLoop φ) (timer : Addr) (t : Timer φ) (n : Nat) : Prop :=
  (∃ when_, s.InSets timer t n when_) ∨ (∃ when_ f, s.InBatch timer t n when_ f) ∨ s.Deleted t n

variable {timer : Addr} {t : Timer φ} {n : Nat} {when_ : Timestamp}

theorem Began.step (h : s.Began n) (hsteps : Steps s a s') : s'.Began n := by
  cases hsteps with
  | handleRead f queue hframe => exact ⟨h.le, fun hnone => absurd hnone (by simp)⟩
  | run f _ _ _ _ hf => exact ⟨h.le, fun hnone => absurd hnone (by simp)⟩
  | return_ f hf => exact ⟨h.le, fun hnone => absurd hnone (by simp)⟩
  | reset f queue hf =>
    have hle := h.le
    constructor <;> simp only [List.length_append, List.length_singleton] <;> omega
  | tick | report | addTimer | createTimer | addTimerInLoop | cancelPending | cancelOther =>
    exact ⟨h.le, h.ended⟩

-- the end of a call that began behind the insertion
theorem expirationNow_ended (s s' : TimerLoop φ) (t : Timer φ) {start : Int} (hn : n ≤ s.ended.length)
    (hended : s'.ended = s.ended ++ [start])
    : s'.expirationNow t n = t.scheduled start (s.expirationNow t n)
        ∧ s'.fired t n = s.fired t n ++ t.fire s.ended.length start (s.expirationNow t n) := by
  have hdrop : s'.ended.drop n = s.ended.drop n ++ [start] := by
    rw [hended, List.drop_append_of_le_length hn]
  have hlength : n + (s.ended.drop n).length = s.ended.length := by
    rw [List.length_drop]
    omega
  unfold expirationNow fired
  rw [hdrop, Timer.expirationAfter_append, Timer.firings_append, hlength]
  exact ⟨rfl, rfl⟩

-- the end of the call that was in progress at the insertion
theorem expirationNow_before (s s' : TimerLoop φ) (t : Timer φ) {start : Int} (hn : s.ended.length < n)
    (hended : s'.ended = s.ended ++ [start])
    : s'.expirationNow t n = s.expirationNow t n ∧ s'.fired t n = s.fired t n := by
  have hlength : (s.ended ++ [start]).length ≤ n := by
    rw [List.length_append, List.length_singleton]
    omega
  have hdrop : s'.ended.drop n = s.ended.drop n := by
    rw [hended, List.drop_of_length_le hlength, List.drop_of_length_le (Nat.le_of_lt hn)]
  unfold expirationNow fired
  rw [hdrop]
  exact ⟨rfl, rfl⟩

theorem runsOf_append_of_ne {s' : TimerLoop φ} {r : Run} {sequence : Nat} (hran : s'.ran = s.ran ++ [r])
    (hne : r.sequence ≠ sequence) : s'.runsOf sequence = s.runsOf sequence := by
  simp [runsOf, hran, List.filter_append, hne]

theorem runsOf_append_of_eq {s' : TimerLoop φ} {r : Run} {sequence : Nat} (hran : s'.ran = s.ran ++ [r])
    (heq : r.sequence = sequence) : s'.runsOf sequence = s.runsOf sequence ++ [r] := by
  simp [runsOf, hran, List.filter_append, heq]

theorem InSets.step (h : s.InSets timer t n when_) (hbegan : s.Began n) (hinv : s.Inv) (hbatch : s.Batch)
    (hsteps : Steps s a s') (hcancel : a ≠ .cancel ⟨timer, t.sequence⟩) : s'.Follows timer t n := by
  have hnotBatch : timer ∉ addrs s.batch := fun hmem => h.notMem (List.mem_append_left _ hmem)
  have hnotQueued : timer ∉ s.queued := fun hmem => h.notMem (List.mem_append_right _ hmem)
  have hlive : s'.queue.heap timer = some { t with expiration := when_ } :=
    hsteps.heap_kept h.live (fun _ => hcancel) (fun _ => hnotBatch)
  cases hsteps with
  | tick | report | addTimer | cancelPending | cancelOther =>
    exact .inl ⟨when_, h.expiration, hlive, h.notMem, h.early, h.runs⟩
  | createTimer b cb when_' interval t' halloc _ =>
    refine .inl ⟨when_, h.expiration, hlive, ?_, h.early, h.runs⟩
    have hne : timer ≠ b := by
      rintro rfl
      have hlive := h.live
      simp [(allocates_iff.mp halloc).1] at hlive
    change timer ∉ addrs s.batch ++ (s.queued ++ [b])
    simp [hnotBatch, hnotQueued, hne]
  | addTimerInLoop b t' queued queue hframe hqueued _ _ =>
    refine .inl ⟨when_, h.expiration, hlive, ?_, h.early, h.runs⟩
    rw [hqueued] at hnotQueued
    change timer ∉ addrs s.batch ++ queued
    simp [hnotBatch, List.not_mem_of_not_mem_cons hnotQueued]
  | handleRead f queue hframe hstart hnow htodo hrunning _ hcanceling hexpiry hmoved =>
    have hentry : toLex (when_, timer) ∈ s.queue.timers :=
      (hinv.owns.timers _ _).mpr ⟨_, h.live, rfl, h.notMem⟩
    by_cases hdue : when_ ≤ f.now
    . have hmem : timer ∈ addrs f.expired := mem_addrs.mpr ⟨when_, (hexpiry.mem _ _).mpr ⟨hentry, hdue⟩⟩
      refine .inr (.inl ⟨when_, f, rfl, hbegan.ended hframe, h.expiration, hdue, hlive, hmem, ?_, ?_⟩)
      . dsimp only
        rw [hcanceling]
        exact SortedSet.mem_empty.mp
      . rw [if_pos (htodo ▸ hmem), List.append_nil]
        exact h.runs
    . refine .inl ⟨when_, h.expiration, hlive, ?_, ?_, h.runs⟩
      . have hnotMem : timer ∉ addrs f.expired := by
          intro hmem
          obtain ⟨when_', hmem⟩ := mem_addrs.mp hmem
          obtain ⟨htimers, hdue'⟩ := (hexpiry.mem _ _).mp hmem
          obtain ⟨t', ht', rfl, _⟩ := (hinv.owns.timers _ _).mp htimers
          rw [h.live, Option.some.injEq] at ht'
          subst ht'
          exact hdue hdue'
        simpa [batch] using ⟨hnotMem, hnotQueued⟩
      . rintro _ ⟨rfl⟩ _
        exact not_le.mp hdue
  | run f when_' b t' todo hf _ htodo ht' =>
    have hb : b ∈ addrs f.expired := mem_addrs.mpr ⟨when_', (hinv.todo f hf).mem (htodo ▸ List.mem_cons_self)⟩
    rw [batch_of_some hf] at hnotBatch
    refine .inl ⟨when_, h.expiration, hlive, ?_, ?_, ?_⟩
    . simpa [batch] using ⟨hnotBatch, hnotQueued⟩
    . rintro _ ⟨rfl⟩
      exact h.early f hf
    . have hne : t'.sequence ≠ t.sequence := by
        intro heq
        exact hnotBatch (hbatch.distinct b timer _ _ ht' h.live heq ▸ hb)
      exact (runsOf_append_of_ne rfl hne).trans h.runs
  | return_ f hf _ =>
    rw [batch_of_some hf] at hnotBatch
    refine .inl ⟨when_, h.expiration, hlive, ?_, ?_, h.runs⟩
    . simpa [batch] using ⟨hnotBatch, hnotQueued⟩
    . rintro _ ⟨rfl⟩
      exact h.early f hf
  | reset f queue hf _ _ _ _ =>
    have hnotMem : timer ∉ addrs ([] : List Entry) ++ s.queued := by
      simpa [addrs] using hnotQueued
    by_cases hn : n ≤ s.ended.length
    . have hearly := h.early f hf hn
      rw [hbatch.now f hf] at hearly
      obtain ⟨hexpiration, hfired⟩ := expirationNow_ended s
        { s with queue := queue, frame := none, ended := s.ended ++ [f.start] } t hn rfl
      rw [h.expiration] at hexpiration hfired
      refine .inl ⟨when_, ?_, hlive, hnotMem, fun f' hf' => absurd hf' (by simp), ?_⟩
      . rw [hexpiration, Timer.scheduled, if_neg (not_le.mpr hearly)]
      . rw [hfired, Timer.fire, if_neg (not_le.mpr hearly), List.append_nil]
        exact h.runs
    . obtain ⟨hexpiration, hfired⟩ := expirationNow_before s
        { s with queue := queue, frame := none, ended := s.ended ++ [f.start] } t (not_le.mp hn) rfl
      refine .inl ⟨when_, hexpiration.trans h.expiration, hlive, hnotMem, fun f' hf' => absurd hf' (by simp), ?_⟩
      rw [hfired]
      exact h.runs

theorem mem_addrs_todo {f : HandleRead} {b : Addr} {todo : List Entry} {when_' : Timestamp}
    (htodo : f.todo = toLex (when_', b) :: todo) (hne : timer ≠ b)
    : timer ∈ addrs f.todo ↔ timer ∈ addrs todo := by
  rw [htodo]
  simp [addrs, hne]

theorem Deleted.dead_of_renewed {f : HandleRead} {queue : TimerQueue φ}
    (h : s.InBatch timer t n when_ f) (hbatch : s.Batch)
    (hrenewed : Renewed { s.queue with callingExpiredTimers := false } queue f.now f.expired)
    (hgone : queue.heap timer = none) : ∀ b t', queue.heap b = some t' → t'.sequence ≠ t.sequence := by
  intro b t' ht' heq
  have halive := ht'
  by_cases hb : b ∈ addrs f.expired
  . simp only [hrenewed.batch b hb, Option.bind_eq_some_iff, renewed] at ht'
    obtain ⟨t'', ht'', hrenew⟩ := ht'
    split at hrenew
    . rw [Option.some.injEq] at hrenew
      have hsequence : t''.sequence = t.sequence := by
        rw [← heq, ← hrenew, Timer.sequence_restart]
      have hsame : b = timer := hbatch.distinct b timer _ _ ht'' h.live hsequence
      rw [hsame, hgone] at halive
      cases halive
    . cases hrenew
  . simp only [hrenewed.others b hb] at ht'
    exact hb (hbatch.distinct b timer _ _ ht' h.live heq ▸ h.mem)

-- the end of the call: the timer goes back into the sets, or it is deleted
theorem InBatch.reset {f : HandleRead} {queue : TimerQueue φ} (h : s.InBatch timer t n when_ f)
    (hinv : s.Inv) (hbatch : s.Batch) (htodo : f.todo = [])
    (hrenewed : Renewed { s.queue with callingExpiredTimers := false } queue f.now f.expired)
    : Follows { s with queue := queue, frame := none, ended := s.ended ++ [f.start] } timer t n := by
  have hdue := h.due
  have hruns := h.runs
  have hmem : timer ∈ addrs s.batch := by
    rw [batch_of_some h.frame]
    exact h.mem
  have hnotTodo : timer ∉ addrs f.todo := by
    simp [htodo, addrs]
  rw [hbatch.now f h.frame] at hdue
  rw [if_neg hnotTodo] at hruns
  obtain ⟨hexpiration, hfired⟩ := expirationNow_ended s
    { s with queue := queue, frame := none, ended := s.ended ++ [f.start] } t h.began rfl
  rw [h.expiration] at hexpiration hfired
  rw [← hfired] at hruns
  rw [Timer.scheduled, if_pos hdue] at hexpiration
  have hrenew := hrenewed.batch timer h.mem
  simp only [h.live, Option.bind_some, renewed, h.notCanceled, not_false_eq_true, decide_true,
    Bool.and_true] at hrenew
  by_cases hrepeat : t.repeat_ = true
  . rw [if_pos hrepeat] at hexpiration hrenew
    refine .inl ⟨_, hexpiration, ?_, ?_, fun f' hf' => absurd hf' (by simp), hruns⟩
    . simp only [hrenew, Timer.restart, hrepeat, if_true, hbatch.now f h.frame]
    . simpa [batch, addrs] using hinv.not_queued hmem
  . rw [if_neg hrepeat] at hexpiration hrenew
    refine .inr (.inr ⟨hexpiration, Deleted.dead_of_renewed h hbatch hrenewed hrenew, ?_, hruns⟩)
    dsimp only
    rw [hrenewed.numCreated]
    exact hinv.numbered timer { t with expiration := when_ } h.live

theorem InBatch.step {f : HandleRead} (h : s.InBatch timer t n when_ f) (hinv : s.Inv) (hbatch : s.Batch)
    (hsteps : Steps s a s') (hcancel : a ≠ .cancel ⟨timer, t.sequence⟩) : s'.Follows timer t n := by
  have hframe := h.frame
  have hmem : timer ∈ addrs s.batch := by
    rw [batch_of_some h.frame]
    exact h.mem
  have hlive : a ≠ .reset → s'.queue.heap timer = some { t with expiration := when_ } := fun hne =>
    hsteps.outside_kept (List.mem_append_left _ hmem) h.live fun heq => absurd heq hne
  cases hsteps with
  | addTimerInLoop | report | handleRead => simp_all
  | tick | createTimer | cancelPending =>
    exact .inr (.inl ⟨when_, f, h.frame, h.began, h.expiration, h.due, hlive (by simp), h.mem, h.notCanceled,
      h.runs⟩)
  | addTimer b cb when_' interval t' queue _ _ _ hsame =>
    refine .inr (.inl ⟨when_, f, h.frame, h.began, h.expiration, h.due, hlive (by simp), h.mem, ?_, h.runs⟩)
    dsimp only
    rw [hsame.cancelingTimers]
    exact h.notCanceled
  | cancelOther timerId =>
    refine .inr (.inl ⟨when_, f, h.frame, h.began, h.expiration, h.due, hlive (by simp), h.mem, ?_, h.runs⟩)
    have hne : ¬(timer = timerId.timer ∧ t.sequence = timerId.sequence) := by
      rintro ⟨htimer, hsequence⟩
      exact hcancel (by rw [htimer, hsequence])
    simp only [canceling]
    split
    . rw [SortedSet.mem_insert]
      simp [h.notCanceled, hne]
    . exact h.notCanceled
  | run f' when_' b t' todo hf _ htodo ht' =>
    rw [h.frame, Option.some.injEq] at hf
    subst hf
    refine .inr (.inl ⟨when_, _, rfl, h.began, h.expiration, h.due, hlive (by simp), h.mem, h.notCanceled, ?_⟩)
    dsimp only
    by_cases hb : timer = b
    . subst hb
      rw [h.live, Option.some.injEq] at ht'
      subst ht'
      have hnodup : (addrs f.todo).Nodup := by
        have howns := hinv.owns.nodup
        rw [batch_of_some h.frame] at howns
        exact ((List.nodup_append.mp howns).1).sublist ((hinv.todo f h.frame).sublist.map _)
      rw [htodo] at hnodup
      have hnotMem : timer ∉ addrs todo := (List.nodup_cons.mp hnodup).1
      have hhead : timer ∈ addrs f.todo := htodo ▸ List.mem_cons_self
      have hdue := h.due
      have hruns := h.runs
      rw [hbatch.now f h.frame] at hdue
      rw [if_pos hhead, List.append_nil] at hruns
      rw [if_neg hnotMem, Timer.fire, if_pos hdue]
      have hrun : s.runsOf t.sequence ++ [⟨s.ended.length, f.start, t.sequence, when_⟩]
          = s.fired t n ++ [⟨s.ended.length, f.start, t.sequence, when_⟩] := by
        rw [hruns]
      exact Eq.trans (runsOf_append_of_eq rfl rfl) hrun
    . have hne : t'.sequence ≠ t.sequence := by
        intro heq
        exact hb (hbatch.distinct b timer _ _ ht' h.live heq).symm
      rw [runsOf_append_of_ne rfl hne, ← if_congr (mem_addrs_todo htodo hb) rfl rfl]
      exact h.runs
  | return_ f' hf _ =>
    rw [h.frame, Option.some.injEq] at hf
    subst hf
    exact .inr (.inl ⟨when_, _, rfl, h.began, h.expiration, h.due, hlive (by simp), h.mem, h.notCanceled, h.runs⟩)
  | reset f' queue hf _ htodo hrenewed _ =>
    rw [h.frame, Option.some.injEq] at hf
    subst hf
    exact h.reset hinv hbatch htodo hrenewed

theorem Deleted.step (h : s.Deleted t n) (hsteps : Steps s a s') : s'.Deleted t n := by
  have hheirs := hsteps.heirs
  have hdead : ∀ b t', s'.queue.heap b = some t' → t'.sequence ≠ t.sequence := by
    intro b t' ht'
    cases hheirs.heap b t' ht' with
    | inl hlived =>
      obtain ⟨t'', ht'', heq⟩ := hlived
      exact heq ▸ h.dead b t'' ht''
    | inr hnew =>
      have := h.numCreated
      omega
  have hnumCreated := Nat.le_trans h.numCreated hheirs.numCreated
  cases hsteps with
  | run f when_ b t' todo hf _ _ ht' =>
    exact ⟨h.expiration, hdead, hnumCreated, (runsOf_append_of_ne rfl (h.dead b t' ht')).trans h.runs⟩
  | reset f queue =>
    by_cases hn : n ≤ s.ended.length
    . obtain ⟨hexpiration, hfired⟩ := expirationNow_ended s
        { s with queue := queue, frame := none, ended := s.ended ++ [f.start] } t hn rfl
      rw [h.expiration] at hexpiration hfired
      refine ⟨hexpiration, hdead, hnumCreated, ?_⟩
      rw [hfired, Timer.fire, List.append_nil]
      exact h.runs
    . obtain ⟨hexpiration, hfired⟩ := expirationNow_before s
        { s with queue := queue, frame := none, ended := s.ended ++ [f.start] } t (not_le.mp hn) rfl
      refine ⟨hexpiration.trans h.expiration, hdead, hnumCreated, ?_⟩
      rw [hfired]
      exact h.runs
  | tick | report | addTimer | createTimer | addTimerInLoop | cancelPending | cancelOther | handleRead
  | return_ => exact ⟨h.expiration, hdead, hnumCreated, h.runs⟩

theorem Follows.step (h : s.Follows timer t n) (hbegan : s.Began n) (hinv : s.Inv) (hbatch : s.Batch)
    (hsteps : Steps s a s') (hcancel : a ≠ .cancel ⟨timer, t.sequence⟩) : s'.Follows timer t n := by
  obtain ⟨when_, hsets⟩ | ⟨when_, f, hinBatch⟩ | hdeleted := h
  . exact hsets.step hbegan hinv hbatch hsteps hcancel
  . exact hinBatch.step hinv hbatch hsteps hcancel
  . exact .inr (.inr (hdeleted.step hsteps))

theorem Follows.run {as : List (Label φ)} (hs : (anyTime φ).Reachable s) (hbegan : s.Began n)
    (h : s.Follows timer t n) (hcancel : .cancel ⟨timer, t.sequence⟩ ∉ as)
    (hrun : (anyTime φ).run s as = some s') : s'.Began n ∧ s'.Follows timer t n := by
  refine hs.run_invariant (fun s => s.Began n ∧ s.Follows timer t n) ⟨hbegan, h⟩ ?_ hrun
  rintro s a s' hs ha ⟨hbegan, hfollows⟩ hstep
  obtain ⟨hinv, hbatch, _⟩ := batch_reachable hs
  have hsteps := hinv.steps_anyTime hstep
  refine ⟨hbegan.step hsteps, hfollows.step hbegan hinv hbatch hsteps ?_⟩
  rintro rfl
  exact hcancel ha

end TimerLoop

end MyMuduo
