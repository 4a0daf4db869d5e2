import MyMuduo.Transition.Basic

/-!
This module contains the abstract first-in first-out service: what has arrived is served exactly
once and in the order of arrival.
-/

universe u

structure Fifo (α : Type u) where
  arrived : List α
  served : List α

namespace Fifo

variable {α : Type u}

/--
In one step `arriving` comes in, and then the next `serving` elements are served.
-/
structure Label (α : Type u) where
  arriving : List α
  serving : Nat

def step (q : Fifo α) (a : Label α) : Option (Fifo α) :=
  let arrived := q.arrived ++ a.arriving
  let served := q.served.length + a.serving
  if served ≤ arrived.length then
    some { arrived := arrived, served := arrived.take served }
  else
    none

def system (α : Type u) : LTS (Fifo α) (Label α) where
  init q := q.arrived = [] ∧ q.served = []
  step := step

/--
An implementation that keeps the elements still to be served in `waiting` serves the first of them.
-/
theorem step_serve {q : Fifo α} {arriving serving waiting : List α}
    (h : q.served ++ serving ++ waiting = q.arrived ++ arriving)
    : q.step ⟨arriving, serving.length⟩ = some ⟨q.arrived ++ arriving, q.served ++ serving⟩ := by
  simp only [step, ← h]
  rw [if_pos]
  . rw [← List.length_append, List.take_left]
  . simp only [List.length_append]
    omega

end Fifo
