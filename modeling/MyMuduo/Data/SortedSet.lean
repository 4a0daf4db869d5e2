import Mathlib.Order.Lattice
import Mathlib.Data.List.Sort

/-!
This module contains finite sets kept as strictly increasing lists, the observable behaviour of an
ordered container that iterates from its least element.
-/

universe u

structure SortedSet (α : Type u) [LinearOrder α] where
  toList : List α
  sorted : toList.Pairwise (· < ·)

namespace SortedSet

variable {α : Type u} [LinearOrder α]

instance : Membership α (SortedSet α) where
  mem s a := a ∈ s.toList

instance (a : α) (s : SortedSet α) : Decidable (a ∈ s) :=
  inferInstanceAs (Decidable (a ∈ s.toList))

def empty : SortedSet α :=
  ⟨[], .nil⟩

def insertList (a : α) : List α → List α
  | [] => [a]
  | b :: l =>
    if a < b then
      a :: b :: l
    else if b < a then
      b :: insertList a l
    else
      b :: l

theorem mem_insertList {a b : α} {l : List α} : b ∈ insertList a l ↔ b = a ∨ b ∈ l := by
  induction l with
  | nil => simp [insertList]
  | cons c l ih =>
    unfold insertList
    split
    . simp
    . split
      . simp only [List.mem_cons, ih]
        tauto
      . next hac hca =>
        have : a = c := le_antisymm (not_lt.mp hca) (not_lt.mp hac)
        simp [this]

theorem sorted_insertList {a : α} {l : List α} (h : l.Pairwise (· < ·))
    : (insertList a l).Pairwise (· < ·) := by
  induction l with
  | nil => simp [insertList]
  | cons c l ih =>
    rw [List.pairwise_cons] at h
    unfold insertList
    split
    . next hac =>
      rw [List.pairwise_cons, List.pairwise_cons]
      refine ⟨?_, h⟩
      intro b hb
      cases List.mem_cons.mp hb with
      | inl heq => exact heq ▸ hac
      | inr hmem => exact lt_trans hac (h.1 b hmem)
    . split
      . next hca =>
        rw [List.pairwise_cons]
        refine ⟨?_, ih h.2⟩
        intro b hb
        cases mem_insertList.mp hb with
        | inl heq => exact heq ▸ hca
        | inr hmem => exact h.1 b hmem
      . exact List.pairwise_cons.mpr h

def insert (s : SortedSet α) (a : α) : SortedSet α :=
  ⟨insertList a s.toList, sorted_insertList s.sorted⟩

def erase (s : SortedSet α) (a : α) : SortedSet α :=
  ⟨s.toList.filter (· ≠ a), s.sorted.filter _⟩

def filter (s : SortedSet α) (p : α → Bool) : SortedSet α :=
  ⟨s.toList.filter p, s.sorted.filter _⟩

-- the elements in front of `lower_bound a`
def below (s : SortedSet α) (a : α) : List α :=
  s.toList.takeWhile (· < a)

def dropBelow (s : SortedSet α) (a : α) : SortedSet α :=
  ⟨s.toList.dropWhile (· < a), s.sorted.sublist (List.dropWhile_sublist _)⟩

def min? (s : SortedSet α) : Option α :=
  s.toList.head?

@[simp]
theorem mem_empty {a : α} : a ∈ (empty : SortedSet α) ↔ False := by
  change a ∈ [] ↔ False
  simp

@[simp]
theorem mem_insert {s : SortedSet α} {a b : α} : b ∈ s.insert a ↔ b = a ∨ b ∈ s :=
  mem_insertList

@[simp]
theorem mem_erase {s : SortedSet α} {a b : α} : b ∈ s.erase a ↔ b ∈ s ∧ b ≠ a := by
  change b ∈ s.toList.filter (· ≠ a) ↔ b ∈ s.toList ∧ b ≠ a
  simp

@[simp]
theorem mem_filter {s : SortedSet α} {p : α → Bool} {a : α} : a ∈ s.filter p ↔ a ∈ s ∧ p a = true :=
  List.mem_filter

@[ext]
theorem ext {s t : SortedSet α} (h : ∀ a, a ∈ s ↔ a ∈ t) : s = t := by
  obtain ⟨l, hl⟩ := s
  obtain ⟨l', hl'⟩ := t
  have heq : l = l' := hl.eq_of_mem_iff hl' fun {a} => h a
  subst heq
  rfl

@[simp]
theorem erase_erase (s : SortedSet α) (a : α) : (s.erase a).erase a = s.erase a := by
  apply ext
  simp

theorem mem_takeWhile {a b : α} {l : List α} (h : l.Pairwise (· < ·))
    : b ∈ l.takeWhile (· < a) ↔ b ∈ l ∧ b < a := by
  induction l with
  | nil => simp
  | cons c l ih =>
    rw [List.pairwise_cons] at h
    by_cases hc : c < a
    . simp only [List.takeWhile_cons, hc, decide_true, if_true, List.mem_cons, ih h.2]
      constructor
      . intro hb
        cases hb with
        | inl heq => exact ⟨.inl heq, heq ▸ hc⟩
        | inr hmem => exact ⟨.inr hmem.1, hmem.2⟩
      . intro hb
        exact hb.1.imp id fun hmem => ⟨hmem, hb.2⟩
    . simp only [List.takeWhile_cons, hc, decide_false, Bool.false_eq_true, if_false,
        List.not_mem_nil, List.mem_cons, false_iff, not_and, not_lt]
      intro hb
      cases hb with
      | inl heq => exact heq ▸ not_lt.mp hc
      | inr hmem => exact le_trans (not_lt.mp hc) (le_of_lt (h.1 b hmem))

theorem mem_dropWhile {a b : α} {l : List α} (h : l.Pairwise (· < ·))
    : b ∈ l.dropWhile (· < a) ↔ b ∈ l ∧ ¬b < a := by
  induction l with
  | nil => simp
  | cons c l ih =>
    have hl := (List.pairwise_cons.mp h).2
    by_cases hc : c < a
    . simp only [List.dropWhile_cons, hc, decide_true, if_true, List.mem_cons, ih hl]
      constructor
      . intro hb
        exact ⟨.inr hb.1, hb.2⟩
      . intro hb
        cases hb.1 with
        | inl heq => exact absurd (heq ▸ hc) hb.2
        | inr hmem => exact ⟨hmem, hb.2⟩
    . simp only [List.dropWhile_cons, hc, decide_false, Bool.false_eq_true, if_false]
      constructor
      . intro hb
        refine ⟨hb, ?_⟩
        cases List.mem_cons.mp hb with
        | inl heq => exact heq ▸ hc
        | inr hmem =>
          have := (List.pairwise_cons.mp h).1 b hmem
          exact not_lt.mpr (le_trans (not_lt.mp hc) (le_of_lt this))
      . intro hb
        exact hb.1

theorem mem_below {s : SortedSet α} {a b : α} : b ∈ s.below a ↔ b ∈ s ∧ b < a :=
  mem_takeWhile s.sorted

@[simp]
theorem mem_dropBelow {s : SortedSet α} {a b : α} : b ∈ s.dropBelow a ↔ b ∈ s ∧ ¬b < a :=
  mem_dropWhile s.sorted

theorem sorted_below (s : SortedSet α) (a : α) : (s.below a).Pairwise (· < ·) :=
  s.sorted.sublist (List.takeWhile_sublist _)

theorem min?_eq_none_iff {s : SortedSet α} : s.min? = none ↔ ∀ a, a ∉ s := by
  change s.toList.head? = none ↔ ∀ a, a ∉ s.toList
  rw [List.head?_eq_none_iff, List.eq_nil_iff_forall_not_mem]

theorem mem_of_min? {s : SortedSet α} {a : α} (h : s.min? = some a) : a ∈ s :=
  List.mem_of_head? h

theorem min?_le {s : SortedSet α} {a b : α} (h : s.min? = some a) (hb : b ∈ s) : a ≤ b := by
  obtain ⟨l, hl⟩ := List.head?_eq_some_iff.mp h
  have hsorted := s.sorted
  have hmem : b ∈ s.toList := hb
  rw [hl, List.pairwise_cons] at hsorted
  rw [hl, List.mem_cons] at hmem
  cases hmem with
  | inl heq => exact le_of_eq heq.symm
  | inr hmem => exact le_of_lt (hsorted.1 b hmem)

end SortedSet
