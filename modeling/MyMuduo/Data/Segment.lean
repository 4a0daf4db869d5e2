import Mathlib.Data.List.Basic

/-!
This module contains index ranges of a list and writes into such a range, the operations a program
performs on a contiguous array through offsets.
-/

universe u

namespace List

variable {α : Type u}

def segment (l : List α) (i j : Nat) : List α :=
  (l.drop i).take (j - i)

def overwrite (l : List α) (i : Nat) (ys : List α) : List α :=
  l.take i ++ ys ++ l.drop (i + ys.length)

theorem getElem?_segment (l : List α) (i j k : Nat)
    : (l.segment i j)[k]? = if k < j - i then l[i + k]? else none := by
  unfold segment
  grind

theorem getElem?_overwrite (l : List α) (i : Nat) (ys : List α) (hi : i ≤ l.length) (k : Nat)
    : (l.overwrite i ys)[k]? =
        if k < i then l[k]? else if k < i + ys.length then ys[k - i]? else l[k]? := by
  unfold overwrite
  grind

@[simp]
theorem length_segment (l : List α) (i j : Nat) (hj : j ≤ l.length)
    : (l.segment i j).length = j - i := by
  simp only [segment, length_take, length_drop]
  omega

@[simp]
theorem segment_self (l : List α) (i : Nat) : l.segment i i = [] := by
  simp [segment]

@[simp]
theorem length_overwrite (l : List α) (i : Nat) (ys : List α) (h : i + ys.length ≤ l.length)
    : (l.overwrite i ys).length = l.length := by
  simp only [overwrite, length_append, length_take, length_drop]
  omega

theorem segment_append (l : List α) {i j k : Nat} (hij : i ≤ j) (hjk : j ≤ k)
    : l.segment i j ++ l.segment j k = l.segment i k := by
  apply ext_getElem?
  intro n
  simp only [segment]
  grind

theorem drop_segment (l : List α) (i j n : Nat) : (l.segment i j).drop n = l.segment (i + n) j := by
  simp only [segment, drop_take, drop_drop]
  congr 1
  omega

theorem take_segment (l : List α) (i j n : Nat) (h : i + n ≤ j)
    : (l.segment i j).take n = l.segment i (i + n) := by
  simp only [segment, take_take]
  congr 1
  omega

theorem segment_append_left (l l' : List α) (i : Nat) {j : Nat} (hj : j ≤ l.length)
    : (l ++ l').segment i j = l.segment i j := by
  apply ext_getElem?
  intro n
  simp only [getElem?_segment]
  grind

theorem segment_overwrite_before (l : List α) (i : Nat) {j k : Nat} (ys : List α)
    (hk : k ≤ l.length) (hj : j ≤ k)
    : (l.overwrite k ys).segment i j = l.segment i j := by
  apply ext_getElem?
  intro n
  simp only [getElem?_segment, getElem?_overwrite _ _ _ hk]
  grind

theorem segment_overwrite_self (l : List α) (i : Nat) (ys : List α) (hi : i ≤ l.length)
    : (l.overwrite i ys).segment i (i + ys.length) = ys := by
  apply ext_getElem?
  intro n
  simp only [getElem?_segment, getElem?_overwrite _ _ _ hi]
  grind

/-!
Copies cell by cell, in the order of the offsets. They fail at the first access outside of the list.
-/

def readCells (l : List α) (i : Nat) : Nat → Option (List α)
  | 0 => some []
  | n + 1 =>
    match l[i]? with
    | some x => (l.readCells (i + 1) n).map (x :: ·)
    | none => none

def writeCells (l : List α) (i : Nat) : List α → Option (List α)
  | [] => some l
  | y :: ys => if i < l.length then (l.set i y).writeCells (i + 1) ys else none

def copyCells (l : List α) (i j : Nat) : Nat → Option (List α)
  | 0 => some l
  | n + 1 =>
    match l[i]? with
    | some x => if j < l.length then (l.set j x).copyCells (i + 1) (j + 1) n else none
    | none => none

theorem segment_succ (l : List α) {i j : Nat} (hij : i < j) {x : α} (hx : l[i]? = some x)
    : l.segment i j = x :: l.segment (i + 1) j := by
  apply ext_getElem?
  intro n
  cases n with
  | zero =>
    simp only [getElem?_segment, getElem?_cons_zero]
    grind
  | succ n =>
    simp only [getElem?_segment, getElem?_cons_succ]
    grind

theorem overwrite_set (l : List α) {i : Nat} (hi : i < l.length) (y : α) (ys : List α)
    : (l.set i y).overwrite (i + 1) ys = l.overwrite i (y :: ys) := by
  apply ext_getElem?
  intro n
  have hset : i + 1 ≤ (l.set i y).length := by
    rw [length_set]
    omega
  rw [getElem?_overwrite _ _ _ hset, getElem?_overwrite _ _ _ (Nat.le_of_lt hi)]
  grind

@[simp]
theorem overwrite_nil (l : List α) (i : Nat) : l.overwrite i [] = l := by
  simp [overwrite]

theorem readCells_eq (l : List α) (i n : Nat) (h : i + n ≤ l.length)
    : l.readCells i n = some (l.segment i (i + n)) := by
  induction n generalizing i with
  | zero => simp [readCells]
  | succ n ih =>
    have hx : l[i]? = some l[i] := getElem?_eq_getElem (by omega)
    have hrest := ih (i + 1) (by omega)
    rw [Nat.add_right_comm, Nat.add_assoc] at hrest
    unfold readCells
    rw [hx]
    dsimp only
    rw [hrest, segment_succ l (by omega) hx, Option.map_some]

theorem length_readCells {l out : List α} {i n : Nat} (h : l.readCells i n = some out)
    : out.length = n := by
  induction n generalizing i out with
  | zero =>
    simp only [readCells, Option.some.injEq] at h
    subst h
    rfl
  | succ n ih =>
    unfold readCells at h
    split at h
    . simp only [Option.map_eq_some_iff] at h
      obtain ⟨rest, hrest, rfl⟩ := h
      rw [length_cons, ih hrest]
    . cases h

theorem writeCells_eq (l : List α) (i : Nat) (ys : List α) (h : i + ys.length ≤ l.length)
    : l.writeCells i ys = some (l.overwrite i ys) := by
  induction ys generalizing l i with
  | nil => simp [writeCells]
  | cons y ys ih =>
    rw [length_cons] at h
    have hi : i < l.length := by omega
    unfold writeCells
    rw [if_pos hi, ih]
    . rw [overwrite_set l hi]
    . rw [length_set]
      omega

/--
Copying to the left is a read followed by a write: a cell is read before it is overwritten.
-/
theorem copyCells_eq (l : List α) (i j n : Nat) (hji : j ≤ i) (h : i + n ≤ l.length)
    : l.copyCells i j n = some (l.overwrite j (l.segment i (i + n))) := by
  induction n generalizing l i j with
  | zero => simp [copyCells]
  | succ n ih =>
    have hx : l[i]? = some l[i] := getElem?_eq_getElem (by omega)
    have hj : j < l.length := by omega
    have hbehind : (l.set j l[i]).segment (i + 1) (i + 1 + n) = l.segment (i + 1) (i + (n + 1)) := by
      apply ext_getElem?
      intro k
      simp only [getElem?_segment]
      grind
    unfold copyCells
    rw [hx]
    dsimp only
    rw [if_pos hj, ih]
    . rw [hbehind, overwrite_set l hj, segment_succ l (by omega) hx]
    . omega
    . rw [length_set]
      omega

end List
