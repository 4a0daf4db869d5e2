import Mathlib.Logic.Function.Basic

/-!
This module contains a flat memory of which only a part is alive: loads of a range, stores, and the
beginning and the end of the lifetime of a range.
-/

universe u

abbrev Memory (β : Type u) := Nat → Option β

namespace Memory

variable {β : Type u}

-- `none` if not all of the range is alive
def load (m : Memory β) (addr : Nat) : Nat → Option (List β)
  | 0 => some []
  | len + 1 => (m addr).bind fun value => (m.load (addr + 1) len).map (value :: ·)

def store (m : Memory β) (addr : Nat) (value : β) : Memory β :=
  Function.update m addr (some value)

def free (m : Memory β) (addr len : Nat) : Memory β :=
  fun a => if addr ≤ a ∧ a < addr + len then none else m a

def alloc (m : Memory β) (addr : Nat) (contents : List β) : Memory β :=
  fun a => if addr ≤ a ∧ a < addr + contents.length then contents[a - addr]? else m a

-- nothing of the range is alive
def isDead (m : Memory β) (addr len : Nat) : Bool :=
  (List.range len).all fun i => (m (addr + i)).isNone

theorem load_congr {m m' : Memory β} {addr len : Nat}
    (h : ∀ a, addr ≤ a → a < addr + len → m' a = m a) : m'.load addr len = m.load addr len := by
  induction len generalizing addr with
  | zero => rfl
  | succ len ih =>
    have hhead : m' addr = m addr := by
      apply h <;> omega
    have htail : m'.load (addr + 1) len = m.load (addr + 1) len := by
      apply ih
      intro a hle hlt
      apply h <;> omega
    simp only [load, hhead, htail]

theorem isSome_of_load {m : Memory β} {addr len a : Nat} {values : List β}
    (h : m.load addr len = some values) (hle : addr ≤ a) (hlt : a < addr + len)
    : (m a).isSome = true := by
  induction len generalizing addr values with
  | zero => omega
  | succ len ih =>
    simp only [load, Option.bind_eq_some_iff, Option.map_eq_some_iff] at h
    obtain ⟨value, hvalue, tail, htail, _⟩ := h
    by_cases heq : a = addr
    . rw [heq, hvalue]
      rfl
    . apply ih htail <;> omega

theorem load_store {m : Memory β} {addr len a : Nat} {value : β}
    (h : addr ≤ a → a < addr + len → m a = some value)
    : (m.store a value).load addr len = m.load addr len := by
  apply load_congr
  intro b hle hlt
  unfold store
  by_cases heq : b = a
  . subst heq
    rw [Function.update_self]
    exact (h hle hlt).symm
  . rw [Function.update_of_ne heq]

theorem load_free {m : Memory β} {addr len a n : Nat}
    (h : ∀ b, a ≤ b → b < a + n → ¬(addr ≤ b ∧ b < addr + len))
    : (m.free a n).load addr len = m.load addr len := by
  apply load_congr
  intro b hle hlt
  unfold free
  rw [if_neg]
  intro hfreed
  exact h b hfreed.1 hfreed.2 ⟨hle, hlt⟩

theorem load_alloc {m : Memory β} {addr len a : Nat} {values contents : List β}
    (h : m.load addr len = some values) (hdead : m.isDead a contents.length = true)
    : (m.alloc a contents).load addr len = m.load addr len := by
  apply load_congr
  intro b hle hlt
  unfold alloc
  rw [if_neg]
  intro hnew
  have halive := isSome_of_load h hle hlt
  have := List.all_eq_true.mp hdead (b - a) (by
    rw [List.mem_range]
    omega)
  rw [Nat.add_sub_cancel' hnew.1] at this
  simp [Option.isNone_iff_eq_none.mp this] at halive

end Memory
