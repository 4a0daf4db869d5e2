import MyMuduo.Timer.Loop

/-!
This module contains the schedule of a timer that nobody cancels: in which calls of `handleRead` it is
run, and its expiration behind them.
-/

namespace MyMuduo

namespace Timer

universe u

variable {φ : Type u}

-- the expiration behind a call of `handleRead`; a timer without one is deleted
def scheduled (t : Timer φ) (start : Int) : Option Timestamp → Option Timestamp
  | none => none
  | some when_ =>
    if when_ ≤ Timestamp.now start then
      if t.repeat_ then some (addTime (Timestamp.now start) t.interval) else none
    else
      some when_

-- what the call with the number `read` runs
def fire (t : Timer φ) (read : Nat) (start : Int) : Option Timestamp → List Run
  | none => []
  | some when_ => if when_ ≤ Timestamp.now start then [⟨read, start, t.sequence, when_⟩] else []

def expirationAfter (t : Timer φ) (e : Option Timestamp) : List Int → Option Timestamp
  | [] => e
  | start :: starts => t.expirationAfter (t.scheduled start e) starts

def firings (t : Timer φ) (read : Nat) (e : Option Timestamp) : List Int → List Run
  | [] => []
  | start :: starts => t.fire read start e ++ t.firings (read + 1) (t.scheduled start e) starts

theorem expirationAfter_append (t : Timer φ) (e : Option Timestamp) (starts : List Int) (start : Int)
    : t.expirationAfter e (starts ++ [start]) = t.scheduled start (t.expirationAfter e starts) := by
  induction starts generalizing e with
  | nil => rfl
  | cons _ _ ih => exact ih _

theorem firings_append (t : Timer φ) (read : Nat) (e : Option Timestamp) (starts : List Int) (start : Int)
    : t.firings read e (starts ++ [start])
        = t.firings read e starts
            ++ t.fire (read + starts.length) start (t.expirationAfter e starts) := by
  induction starts generalizing read e with
  | nil => simp [firings, expirationAfter]
  | cons start' starts ih =>
    rw [List.cons_append, firings, firings, ih, List.append_assoc, List.length_cons, Nat.add_right_comm,
      Nat.add_assoc]
    rfl

theorem mem_fire {t : Timer φ} {read : Nat} {start : Int} {e : Option Timestamp} {r : Run}
    (h : r ∈ t.fire read start e) : r.read = read ∧ r.sequence = t.sequence := by
  unfold fire at h
  split at h
  . cases h
  . split at h
    . rw [List.mem_singleton] at h
      subst h
      exact ⟨rfl, rfl⟩
    . cases h

theorem read_of_mem_firings {t : Timer φ} {read : Nat} {e : Option Timestamp} {starts : List Int} {r : Run}
    (h : r ∈ t.firings read e starts) : read ≤ r.read ∧ r.read < read + starts.length := by
  induction starts generalizing read e with
  | nil => cases h
  | cons start starts ih =>
    rw [firings, List.mem_append] at h
    rw [List.length_cons]
    cases h with
    | inl hnow =>
      rw [(mem_fire hnow).1]
      omega
    | inr hlater =>
      obtain ⟨hge, hlt⟩ := ih hlater
      omega

/--
Of the runs of a schedule, those of one call of `handleRead`.
-/
theorem filter_firings (t : Timer φ) (read i : Nat) (e : Option Timestamp) (starts : List Int)
    : (t.firings read e starts).filter (fun r => r.read == read + i)
        = (starts[i]?.map fun start =>
            t.fire (read + i) start (t.expirationAfter e (starts.take i))).getD [] := by
  induction starts generalizing read e i with
  | nil => simp [firings]
  | cons start starts ih =>
    rw [firings, List.filter_append]
    cases i with
    | zero =>
      have hnow : (t.fire read start e).filter (fun r => r.read == read + 0) = t.fire read start e := by
        apply List.filter_eq_self.mpr
        intro r hr
        simp [(mem_fire hr).1]
      have hlater : (t.firings (read + 1) (t.scheduled start e) starts).filter
          (fun r => r.read == read + 0) = [] := by
        apply List.filter_eq_nil_iff.mpr
        intro r hr
        have := (read_of_mem_firings hr).1
        simp only [Nat.add_zero, beq_iff_eq]
        omega
      rw [hnow, hlater]
      simp [expirationAfter]
    | succ i =>
      have hnow : (t.fire read start e).filter (fun r => r.read == read + (i + 1)) = [] := by
        apply List.filter_eq_nil_iff.mpr
        intro r hr
        rw [(mem_fire hr).1]
        simp
      rw [hnow, List.nil_append, ← Nat.add_assoc, Nat.add_right_comm, ih]
      simp [expirationAfter]

theorem expirationAfter_none (t : Timer φ) (starts : List Int) : t.expirationAfter none starts = none := by
  induction starts with
  | nil => rfl
  | cons _ _ ih => exact ih

theorem expirationAfter_oneShot {t : Timer φ} (ht : t.repeat_ = false) (when_ : Timestamp)
    (starts : List Int)
    : t.expirationAfter (some when_) starts
        = if ∀ start ∈ starts, Timestamp.now start < when_ then some when_ else none := by
  induction starts with
  | nil => simp [expirationAfter]
  | cons start starts ih =>
    rw [expirationAfter, scheduled]
    split
    . next hdue =>
      rw [ht, if_neg Bool.false_ne_true, expirationAfter_none, if_neg]
      simp only [List.forall_mem_cons, not_and]
      intro hearly
      exact absurd hdue (not_le.mpr hearly)
    . next hearly => simp [ih, not_le.mp hearly]

theorem scheduled_repeat {t : Timer φ} (ht : t.repeat_ = true) {k : Int}
    (hk : t.interval * Timestamp.kMicroSecondsPerSecond = k) (start : Int) (when_ : Timestamp)
    : t.scheduled start (some when_)
        = some (if when_ ≤ Timestamp.now start then Timestamp.now start + k else when_) := by
  have hadd : addTime (Timestamp.now start) t.interval = Timestamp.now start + k := by
    simp [addTime, hk]
  simp only [scheduled, ht, if_true, hadd]
  split <;> rfl

end Timer

end MyMuduo
