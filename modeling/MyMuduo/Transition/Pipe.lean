import MyMuduo.Transition.Basic

/-!
This module contains the abstract pipe: what comes out is what was put in, in the same order, and who sees
the end has seen everything, unless the pipe was broken.
-/

universe u

/--
What was put in and what has come out. Nothing is put into a `closed` pipe, a `broken` one may show its end
early, and `ended` says that the end has been seen.
-/
structure Pipe (α : Type u) where
  sent : List α
  delivered : List α
  closed : Bool
  broken : Bool
  ended : Bool

namespace Pipe

variable {α : Type u}

inductive Label (α : Type u) where
  -- the writer puts in `xs`, and may close the pipe or break it
  | write (xs : List α) (close break_ : Bool)
  | deliver (n : Nat)
  | finish

def enabled [DecidableEq α] (p : Pipe α) : Label α → Bool
  | .write xs _ _ => xs = [] || !p.closed
  | .deliver n => p.delivered.length + n ≤ p.sent.length
  | .finish => p.broken || p.closed && p.delivered.length = p.sent.length

def next (p : Pipe α) : Label α → Pipe α
  | .write xs close break_ =>
    { p with sent := p.sent ++ xs, closed := p.closed || close, broken := p.broken || break_ }
  | .deliver n => { p with delivered := p.sent.take (p.delivered.length + n) }
  | .finish => { p with ended := true }

variable [DecidableEq α]

variable (α) in
def system : LTS (Pipe α) (Label α) :=
  .guarded (fun p => p.sent = [] ∧ p.delivered = [] ∧ p.ended = false) enabled fun p a => some (p.next a)

variable {p p' : Pipe α} {a : Label α}

theorem step_iff : (system α).step p a = some p' ↔ p.enabled a = true ∧ p.next a = p' := by
  rw [system, LTS.guarded_step, Option.some.injEq]

structure Inv (p : Pipe α) : Prop where
  delivered : p.delivered <+: p.sent
  ended : p.ended = true → p.broken = true ∨ p.closed = true ∧ p.delivered = p.sent

theorem Inv.next (h : p.Inv) (henabled : p.enabled a = true) : (p.next a).Inv := by
  cases a with
  | write xs close break_ =>
    refine ⟨h.delivered.trans (List.prefix_append _ _), ?_⟩
    intro hended
    simp only [enabled, Bool.or_eq_true, decide_eq_true_eq, Bool.not_eq_true'] at henabled
    obtain hbroken | ⟨hclosed, hall⟩ := h.ended hended
    . exact .inl (by simp [Pipe.next, hbroken])
    . cases henabled with
      | inl hnothing => exact .inr (by simp [Pipe.next, hclosed, hall, hnothing])
      | inr hopen =>
        rw [hclosed] at hopen
        cases hopen
  | deliver n =>
    refine ⟨List.take_prefix _ _, ?_⟩
    intro hended
    obtain hbroken | ⟨hclosed, hall⟩ := h.ended hended
    . exact .inl hbroken
    . refine .inr ⟨hclosed, ?_⟩
      dsimp only [Pipe.next]
      rw [hall]
      exact List.take_of_length_le (Nat.le_add_right _ _)
  | finish =>
    refine ⟨h.delivered, fun _ => ?_⟩
    simp only [enabled, Bool.or_eq_true, Bool.and_eq_true, decide_eq_true_eq] at henabled
    exact henabled.imp_right fun hall => ⟨hall.1, h.delivered.eq_of_length hall.2⟩

theorem inv_reachable (h : (system α).Reachable p) : p.Inv := by
  refine LTS.Reachable.invariant Inv ?_ ?_ h
  . rintro p ⟨hsent, hdelivered, hended⟩
    rw [← hdelivered] at hsent
    exact ⟨hsent ▸ List.prefix_refl _, fun h => absurd h (by simp [hended])⟩
  . intro p a p' hinv hstep
    obtain ⟨henabled, rfl⟩ := step_iff.mp hstep
    exact hinv.next henabled

/-
How an implementation shows that its steps are those of the pipe.
-/

theorem step_write {xs : List α} (close break_ : Bool) (h : p.closed = true → xs = [])
    : (system α).step p (.write xs close break_)
        = some
            { p with sent := p.sent ++ xs, closed := p.closed || close, broken := p.broken || break_ } := by
  rw [step_iff]
  refine ⟨?_, rfl⟩
  cases hclosed : p.closed with
  | false => simp [enabled, hclosed]
  | true => simp [enabled, h hclosed]

theorem step_deliver {xs : List α} (h : p.delivered ++ xs <+: p.sent)
    : (system α).step p (.deliver xs.length) = some { p with delivered := p.delivered ++ xs } := by
  have hlength := h.length_le
  rw [List.length_append] at hlength
  rw [step_iff]
  refine ⟨decide_eq_true hlength, ?_⟩
  have htake := List.prefix_iff_eq_take.mp h
  rw [List.length_append] at htake
  rw [Pipe.next, ← htake]

theorem step_finish (h : p.broken = false → p.closed = true ∧ p.delivered = p.sent)
    : (system α).step p .finish = some { p with ended := true } := by
  rw [step_iff]
  refine ⟨?_, rfl⟩
  cases hbroken : p.broken with
  | false => simp [enabled, h hbroken]
  | true => simp [enabled, hbroken]

end Pipe
