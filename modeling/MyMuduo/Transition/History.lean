import MyMuduo.Transition.Basic

/-!
This module contains history variables: a value beside the state of a system that every step brings up to
date and no step reads.
-/

universe u v w

structure Recorded (σ : Type u) (η : Type w) where
  state : σ
  history : η
  deriving DecidableEq, Repr

namespace LTS

variable {σ : Type u} {α : Type v} {η : Type w}

def recording (M : LTS σ α) (start : σ → η) (record : η → σ → α → σ → η) : LTS (Recorded σ η) α where
  init r := M.init r.state ∧ r.history = start r.state
  step r a := (M.step r.state a).map fun s => ⟨s, record r.history r.state a s⟩

/--
The history is the largest value of `f` in the states so far.
-/
def withPeak (M : LTS σ α) (f : σ → Nat) : LTS (Recorded σ Nat) α :=
  M.recording f fun peak _ _ s => max peak (f s)

variable {M : LTS σ α} {start : σ → η} {record : η → σ → α → σ → η}

theorem recording_step {r r' : Recorded σ η} {a : α}
    : (M.recording start record).step r a = some r'
        ↔ M.step r.state a = some r'.state ∧ r'.history = record r.history r.state a r'.state := by
  unfold recording
  dsimp only
  rw [Option.map_eq_some_iff]
  constructor
  . rintro ⟨s, hstep, rfl⟩
    exact ⟨hstep, rfl⟩
  . rintro ⟨hstep, hhistory⟩
    refine ⟨r'.state, hstep, ?_⟩
    rw [← hhistory]

theorem Reachable.state {r : Recorded σ η} (h : (M.recording start record).Reachable r)
    : M.Reachable r.state := by
  induction h with
  | init hinit => exact .init hinit.1
  | step _ _ hstep ih => exact .step ih trivial (recording_step.mp hstep).1

theorem le_peak_step {f : σ → Nat} {r r' : Recorded σ Nat} {a : α} (h : (M.withPeak f).step r a = some r')
    : r.history ≤ r'.history ∧ f r'.state ≤ r'.history := by
  rw [(recording_step.mp h).2]
  exact ⟨Nat.le_max_left _ _, Nat.le_max_right _ _⟩

end LTS
