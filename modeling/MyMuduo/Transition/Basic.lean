import Mathlib.Logic.Basic

/-!
This module contains labelled transition systems with a guarded, executable step function, the
states their runs reach, and the rules for invariants and refinement mappings.
-/

universe u v w x

/--
A labelled transition system. `step s a` is the state after `a`, and `none` when `a` is not enabled
in `s`. Everything the environment decides is part of the label.
-/
structure LTS (σ : Type u) (α : Type v) where
  init : σ → Prop
  step : σ → α → Option σ

namespace LTS

variable {σ : Type u} {α : Type v} {τ : Type w} {β : Type x}

def run (M : LTS σ α) (s : σ) : List α → Option σ
  | [] => some s
  | a :: as => (M.step s a).bind fun s => M.run s as

-- a run every step of which passes a check
def runChecked (M : LTS σ α) (check : σ → α → Bool) (s : σ) : List α → Option σ
  | [] => some s
  | a :: as => if check s a then (M.step s a).bind fun s => M.runChecked check s as else none

/--
The states reached by runs all of whose steps meet `ok`.
-/
inductive ReachableBy (M : LTS σ α) (ok : σ → α → Prop) : σ → Prop where
  | init {s : σ} : M.init s → ReachableBy M ok s
  | step {s s' : σ} {a : α} : ReachableBy M ok s → ok s a → M.step s a = some s' → ReachableBy M ok s'

abbrev Reachable (M : LTS σ α) : σ → Prop :=
  M.ReachableBy fun _ _ => True

variable {M : LTS σ α} {ok : σ → α → Prop}

theorem ReachableBy.reachable {s : σ} (h : M.ReachableBy ok s) : M.Reachable s := by
  induction h with
  | init h => exact .init h
  | step _ _ hstep ih => exact .step ih trivial hstep

theorem ReachableBy.weaken {ok' : σ → α → Prop} {s : σ} (h : M.ReachableBy ok s)
    (himp : ∀ s a, ok s a → ok' s a) : M.ReachableBy ok' s := by
  induction h with
  | init h => exact .init h
  | step _ hok hstep ih => exact .step ih (himp _ _ hok) hstep

theorem ReachableBy.invariant (inv : σ → Prop) (hinit : ∀ s, M.init s → inv s)
    (hstep : ∀ s a s', inv s → ok s a → M.step s a = some s' → inv s')
    {s : σ} (h : M.ReachableBy ok s) : inv s := by
  induction h with
  | init h => exact hinit _ h
  | step _ hok h ih => exact hstep _ _ _ ih hok h

theorem Reachable.invariant (inv : σ → Prop) (hinit : ∀ s, M.init s → inv s)
    (hstep : ∀ s a s', inv s → M.step s a = some s' → inv s')
    {s : σ} (h : M.Reachable s) : inv s :=
  ReachableBy.invariant inv hinit (fun s a s' hinv _ hs => hstep s a s' hinv hs) h

theorem run_cons {s s' s'' : σ} {a : α} {as : List α} (h : M.step s a = some s')
    (hs : M.run s' as = some s'') : M.run s (a :: as) = some s'' := by
  simp [run, h, hs]

theorem run_append {s s' : σ} {as bs : List α} (h : M.run s as = some s')
    : M.run s (as ++ bs) = M.run s' bs := by
  induction as generalizing s with
  | nil =>
    simp only [run, Option.some.injEq] at h
    rw [h, List.nil_append]
  | cons a as ih =>
    simp only [run, Option.bind_eq_some_iff] at h
    obtain ⟨s₁, hstep, hrun⟩ := h
    simp only [List.cons_append, run, hstep, Option.bind_some]
    exact ih hrun

theorem ReachableBy.run {s s' : σ} (as : List α) (hs : M.ReachableBy ok s)
    (hok : ∀ a ∈ as, ∀ s, ok s a) (h : M.run s as = some s') : M.ReachableBy ok s' := by
  induction as generalizing s with
  | nil =>
    simp only [LTS.run, Option.some.injEq] at h
    exact h ▸ hs
  | cons a as ih =>
    simp only [LTS.run, Option.bind_eq_some_iff] at h
    obtain ⟨s₁, hstep, hrun⟩ := h
    simp only [List.forall_mem_cons] at hok
    exact ih (.step hs (hok.1 s) hstep) hok.2 hrun

theorem ReachableBy.runChecked {check : σ → α → Bool} (hcheck : ∀ s a, check s a = true → ok s a)
    {s s' : σ} {as : List α} (hs : M.ReachableBy ok s) (h : M.runChecked check s as = some s')
    : M.ReachableBy ok s' := by
  induction as generalizing s with
  | nil =>
    simp only [LTS.runChecked, Option.some.injEq] at h
    exact h ▸ hs
  | cons a as ih =>
    simp only [LTS.runChecked] at h
    split at h
    . next hpass =>
      simp only [Option.bind_eq_some_iff] at h
      obtain ⟨s₁, hstep, hrun⟩ := h
      exact ih (.step hs (hcheck s a hpass) hstep) hrun
    . simp at h

theorem Reachable.run {s s' : σ} {as : List α} (hs : M.Reachable s) (h : M.run s as = some s')
    : M.Reachable s' :=
  ReachableBy.run as hs (fun _ _ _ => trivial) h

/--
What the steps of a run preserve holds behind it.
-/
theorem Reachable.run_invariant (inv : σ → Prop) {s s' : σ} {as : List α} (hs : M.Reachable s)
    (h : inv s) (hstep : ∀ s a s', M.Reachable s → a ∈ as → inv s → M.step s a = some s' → inv s')
    (hrun : M.run s as = some s') : inv s' := by
  induction as generalizing s with
  | nil =>
    simp only [LTS.run, Option.some.injEq] at hrun
    exact hrun ▸ h
  | cons a as ih =>
    simp only [LTS.run, Option.bind_eq_some_iff] at hrun
    obtain ⟨s₁, hfirst, hrest⟩ := hrun
    have hinv := hstep _ _ _ hs List.mem_cons_self h hfirst
    have hrec : ∀ s a s', M.Reachable s → a ∈ as → inv s → M.step s a = some s' → inv s' :=
      fun s b s' hs hb => hstep s b s' hs (List.mem_cons_of_mem _ hb)
    exact ih (.step hs trivial hfirst) hinv hrec hrest

/--
Two states take the same runs, and stay alike, when states that `f` does not tell apart take the same steps.
-/
theorem run_map_congr {f : σ → τ} (P : σ → Prop) (hinv : ∀ s a s', P s → M.step s a = some s' → P s')
    (hstep : ∀ s s' a, P s → P s' → f s = f s' → (M.step s a).map f = (M.step s' a).map f)
    {s s' : σ} (as : List α) (hs : P s) (hs' : P s') (heq : f s = f s')
    : (M.run s as).map f = (M.run s' as).map f := by
  induction as generalizing s s' with
  | nil => exact congrArg some heq
  | cons a as ih =>
    have hmap := hstep s s' a hs hs' heq
    simp only [LTS.run]
    cases hfirst : M.step s a with
    | none =>
      rw [hfirst, Option.map_none, eq_comm, Option.map_eq_none_iff] at hmap
      rw [hmap, Option.bind_none]
    | some s₁ =>
      rw [hfirst, Option.map_some, eq_comm, Option.map_eq_some_iff] at hmap
      obtain ⟨s₂, hsecond, heq'⟩ := hmap
      rw [hsecond, Option.bind_some, Option.bind_some]
      exact ih (hinv _ _ _ hs hfirst) (hinv _ _ _ hs' hsecond) heq'.symm

/--
The system in which `a` is enabled in `s` when `enabled s a` holds, and then leads to `next s a`.
-/
def guarded (init : σ → Prop) (enabled : σ → α → Bool) (next : σ → α → Option σ) : LTS σ α where
  init := init
  step s a := if enabled s a then next s a else none

theorem guarded_step {init : σ → Prop} {enabled : σ → α → Bool} {next : σ → α → Option σ}
    {s s' : σ} {a : α}
    : (guarded init enabled next).step s a = some s' ↔ enabled s a = true ∧ next s a = some s' := by
  unfold guarded
  dsimp only
  split
  . next h => simp [h]
  . next h => simp [h]

-- what can happen from a state on
def startingAt (M : LTS σ α) (s : σ) : LTS σ α where
  init t := t = s
  step := M.step

/--
`abs` sends every step of `M` to a step of `N` or to no step at all.
-/
structure Refines (M : LTS σ α) (N : LTS τ β) (abs : σ → τ) : Prop where
  init : ∀ s, M.init s → N.init (abs s)
  step : ∀ s a s', M.Reachable s → M.step s a = some s' →
    abs s' = abs s ∨ ∃ b, N.step (abs s) b = some (abs s')

theorem Refines.reachable {N : LTS τ β} {abs : σ → τ} (h : M.Refines N abs) {s : σ}
    (hs : M.Reachable s) : N.Reachable (abs s) := by
  induction hs with
  | init hinit => exact .init (h.init _ hinit)
  | step hs _ hstep ih =>
    cases h.step _ _ _ hs hstep with
    | inl heq =>
      rw [heq]
      exact ih
    | inr hstep =>
      obtain ⟨b, hb⟩ := hstep
      exact .step ih trivial hb

theorem Refines.invariant {N : LTS τ β} {abs : σ → τ} (h : M.Refines N abs) {inv : τ → Prop}
    (hinv : ∀ t, N.Reachable t → inv t) {s : σ} (hs : M.Reachable s) : inv (abs s) :=
  hinv _ (h.reachable hs)

end LTS
