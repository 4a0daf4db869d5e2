import MyMuduo.Transition.Basic

/-!
This module contains the infinite runs of a labelled transition system, the rule by which something comes about in
them at last, and the runs that go round a cycle.
-/

universe u v w

namespace LTS

variable {σ : Type u} {α : Type v} {M : LTS σ α}

/--
An infinite run.
-/
structure Execution (M : LTS σ α) where
  state : Nat → σ
  label : Nat → α
  init : M.init (state 0)
  step : ∀ n, M.step (state n) (label n) = some (state (n + 1))

namespace Execution

theorem reachable (E : M.Execution) (n : Nat) : M.Reachable (E.state n) := by
  induction n with
  | zero => exact .init E.init
  | succ n ih => exact .step ih trivial (E.step n)

-- where `P` holds, `Q` holds at some time from then on
def LeadsTo (E : M.Execution) (P Q : σ → Prop) : Prop :=
  ∀ n, P (E.state n) → ∃ m, n ≤ m ∧ Q (E.state m)

-- again and again a step with a label in `helpful` is taken
def Recurs (E : M.Execution) (helpful : α → Prop) : Prop :=
  ∀ n, ∃ m, n ≤ m ∧ helpful (E.label m)

variable {E : M.Execution} {P Q R : σ → Prop}

theorem LeadsTo.trans (h₁ : E.LeadsTo P Q) (h₂ : E.LeadsTo Q R) : E.LeadsTo P R := by
  intro n hP
  obtain ⟨m, hle, hQ⟩ := h₁ n hP
  obtain ⟨k, hle', hR⟩ := h₂ m hQ
  exact ⟨k, Nat.le_trans hle hle', hR⟩

theorem LeadsTo.mono (h : E.LeadsTo P Q) (himp : ∀ n, Q (E.state n) → R (E.state n)) : E.LeadsTo P R := by
  intro n hP
  obtain ⟨m, hle, hQ⟩ := h n hP
  exact ⟨m, hle, himp m hQ⟩

-- what every step keeps holds from then on
theorem always_of_step {n : Nat} (hP : P (E.state n))
    (hstep : ∀ m, n ≤ m → P (E.state m) → P (E.state (m + 1))) {m : Nat} (hle : n ≤ m) : P (E.state m) := by
  induction hle with
  | refl => exact hP
  | step hle ih => exact hstep _ hle ih

/--
As long as `Q` has not come, the steps keep `P` and do not raise the rank, those with a label in `helpful` lower it, and
such a step is taken again and again. So `Q` comes.
-/
theorem leadsTo_of_rank {β : Type w} {r : β → β → Prop} (hwf : WellFounded r) (rank : σ → β) (helpful : α → Prop)
    (hstep : ∀ n, P (E.state n) → Q (E.state (n + 1))
      ∨ P (E.state (n + 1)) ∧ (r (rank (E.state (n + 1))) (rank (E.state n))
        ∨ rank (E.state (n + 1)) = rank (E.state n) ∧ ¬helpful (E.label n)))
    (hfair : ∀ n, (∀ m, n ≤ m → P (E.state m)) → ∃ m, n ≤ m ∧ helpful (E.label m)) : E.LeadsTo P Q := by
  intro n
  generalize hb : rank (E.state n) = b
  induction b using hwf.induction generalizing n with
  | _ b ih =>
    intro hP
    by_cases hcomes : ∃ m, n ≤ m ∧ Q (E.state m)
    . exact hcomes
    have hnot : ∀ m, n ≤ m → ¬Q (E.state m) := fun m hle hQ => hcomes ⟨m, hle, hQ⟩
    have hnext : ∀ m, n ≤ m → P (E.state m) → P (E.state (m + 1))
        ∧ (r (rank (E.state (m + 1))) (rank (E.state m))
          ∨ rank (E.state (m + 1)) = rank (E.state m) ∧ ¬helpful (E.label m)) :=
      fun m hle hPm => (hstep m hPm).resolve_left (hnot (m + 1) (by omega))
    have hkept : ∀ m, n ≤ m → P (E.state m) :=
      fun m hle => E.always_of_step hP (fun m hle hPm => (hnext m hle hPm).1) hle
    -- the rank stays, since a smaller one brings `Q`
    have hsame : ∀ m, n ≤ m → rank (E.state m) = b ∧ ¬helpful (E.label m) := by
      intro m hle
      have hlower : ∀ m, n ≤ m → ¬r (rank (E.state m)) b := by
        intro m hle hlow
        obtain ⟨k, hle', hQ⟩ := ih _ hlow m rfl (hkept m hle)
        exact hnot k (Nat.le_trans hle hle') hQ
      have hrank : rank (E.state m) = b := by
        induction hle with
        | refl => exact hb
        | step hle ih =>
          obtain hlow | ⟨heq, _⟩ := (hnext _ hle (hkept _ hle)).2
          . rw [ih] at hlow
            exact absurd hlow (hlower _ (Nat.le_succ_of_le hle))
          . exact heq.trans ih
      obtain hlow | ⟨_, hidle⟩ := (hnext m hle (hkept m hle)).2
      . rw [hrank] at hlow
        exact absurd hlow (hlower _ (Nat.le_succ_of_le hle))
      . exact ⟨hrank, hidle⟩
    obtain ⟨m, hle, hhelpful⟩ := hfair n hkept
    exact absurd hhelpful (hsame m hle).2

end Execution

/-
The run `as`, and then `bs` for ever.
-/

section

variable {s t : σ} {as bs : List α}

theorem run_take (h : M.run s as = some t) {n : Nat} (hn : n < as.length)
    : ∃ s₁ s₂, M.run s (as.take n) = some s₁ ∧ M.run s (as.take (n + 1)) = some s₂
        ∧ M.step s₁ (as.get ⟨n, hn⟩) = some s₂ := by
  induction as generalizing s n with
  | nil => cases hn
  | cons a as ih =>
    simp only [run, Option.bind_eq_some_iff] at h
    obtain ⟨s', hstep, hrun⟩ := h
    cases n with
    | zero => exact ⟨s, s', rfl, by simp [run, hstep], hstep⟩
    | succ n =>
      obtain ⟨s₁, s₂, hfirst, hsecond, hnext⟩ := ih hrun (Nat.lt_of_succ_lt_succ hn)
      refine ⟨s₁, s₂, ?_, ?_, hnext⟩
      . simpa [run, hstep] using hfirst
      . simpa [run, hstep] using hsecond

theorem run_take_length (h : M.run s as = some t) : M.run s (as.take as.length) = some t := by
  rwa [List.take_length]

theorem turn_lt (as : List α) (hne : 0 < bs.length) (n : Nat) : (n - as.length) % bs.length < bs.length :=
  Nat.mod_lt _ hne

def lassoState (M : LTS σ α) (s t : σ) (as bs : List α) (n : Nat) : σ :=
  if n < as.length then
    (M.run s (as.take n)).getD s
  else
    (M.run t (bs.take ((n - as.length) % bs.length))).getD t

def lassoLabel (as : List α) (hne : 0 < bs.length) (n : Nat) : α :=
  if h : n < as.length then
    as.get ⟨n, h⟩
  else
    bs.get ⟨(n - as.length) % bs.length, turn_lt as hne n⟩

theorem lassoState_zero (hrun : M.run s as = some t) : lassoState M s t as bs 0 = s := by
  unfold lassoState
  split
  . rfl
  . next hempty =>
    have hnil : as = [] := List.eq_nil_of_length_eq_zero (by omega)
    subst hnil
    simp only [run, Option.some.injEq] at hrun
    subst hrun
    simp [run]

theorem step_lasso (hrun : M.run s as = some t) (hcycle : M.run t bs = some t) (hne : 0 < bs.length) (n : Nat)
    : M.step (lassoState M s t as bs n) (lassoLabel as hne n) = some (lassoState M s t as bs (n + 1)) := by
  unfold lassoState lassoLabel
  by_cases hlt : n < as.length
  . obtain ⟨s₁, s₂, hfirst, hsecond, hnext⟩ := run_take hrun hlt
    simp only [hlt, if_true, dif_pos, hfirst, Option.getD_some]
    split
    . rw [hsecond]
      exact hnext
    . next hend =>
      have hlast : n + 1 = as.length := by omega
      rw [hlast, run_take_length hrun, Option.some.injEq] at hsecond
      rw [hlast, Nat.sub_self, Nat.zero_mod, List.take_zero, hsecond]
      exact hnext
  . obtain ⟨s₁, s₂, hfirst, hsecond, hnext⟩ := run_take hcycle (turn_lt as hne n)
    have hsucc : ¬n + 1 < as.length := by omega
    have hsub : n + 1 - as.length = n - as.length + 1 := by omega
    have hmod := turn_lt as hne n
    simp only [hlt, hsucc, if_false, dif_neg, not_false_eq_true, hfirst, Option.getD_some, hsub]
    rw [hnext, ← Nat.mod_add_mod]
    by_cases hlast : (n - as.length) % bs.length + 1 = bs.length
    . rw [hlast, run_take_length hcycle, Option.some.injEq] at hsecond
      rw [hlast, Nat.mod_self, List.take_zero, run, Option.getD_some, hsecond]
    . rw [Nat.mod_eq_of_lt (by omega), hsecond, Option.getD_some]

theorem init_lasso (hinit : M.init s) (hrun : M.run s as = some t) : M.init (lassoState M s t as bs 0) :=
  (lassoState_zero hrun).symm ▸ hinit

def Execution.lasso (hinit : M.init s) (hrun : M.run s as = some t) (hcycle : M.run t bs = some t) (hne : 0 < bs.length)
    : M.Execution where
  state := lassoState M s t as bs
  label := lassoLabel as hne
  init := init_lasso hinit hrun
  step := step_lasso hrun hcycle hne

variable (hinit : M.init s) (hrun : M.run s as = some t) (hcycle : M.run t bs = some t) (hne : 0 < bs.length)

theorem Execution.lasso_state (n : Nat)
    : (∃ k, k < as.length ∧ n = k ∧ M.run s (as.take k) = some ((Execution.lasso hinit hrun hcycle hne).state n))
        ∨ ∃ k, k < bs.length ∧ M.run t (bs.take k) = some ((Execution.lasso hinit hrun hcycle hne).state n) := by
  by_cases hlt : n < as.length
  . obtain ⟨s₁, _, hfirst, _⟩ := run_take hrun hlt
    refine .inl ⟨n, hlt, rfl, ?_⟩
    simp only [Execution.lasso, lassoState, hlt, if_true, hfirst, Option.getD_some]
  . obtain ⟨s₁, _, hfirst, _⟩ := run_take hcycle (turn_lt as hne n)
    refine .inr ⟨_, turn_lt as hne n, ?_⟩
    simp only [Execution.lasso, lassoState, hlt, if_false, hfirst, Option.getD_some]

theorem Execution.lasso_recurs {a : α} (hmem : a ∈ bs) : (Execution.lasso hinit hrun hcycle hne).Recurs (· = a) := by
  intro n
  obtain ⟨k, hk, hget⟩ := List.mem_iff_getElem.mp hmem
  have hle : n ≤ bs.length * n := Nat.le_mul_of_pos_left n hne
  refine ⟨as.length + (bs.length * n + k), by omega, ?_⟩
  have hlt : ¬as.length + (bs.length * n + k) < as.length := by omega
  simp only [Execution.lasso, lassoLabel, hlt, dif_neg, not_false_eq_true, Nat.add_sub_cancel_left, Nat.mul_add_mod,
    Nat.mod_eq_of_lt hk, List.get_eq_getElem]
  exact hget

end

end LTS
