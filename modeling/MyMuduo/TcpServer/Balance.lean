import Mathlib.Data.Int.CardIntervalMod
import MyMuduo.TcpServer.Wired

/-!
This module contains how the server deals its connections out to the io loops: in turn, whatever happens to the
connections in between.
-/

namespace MyMuduo

namespace TcpServer

open TcpConnection (Task Notice)

-- the loop of the connection with the number `i` if there are `loops` io loops
def dealt (loops i : Nat) : Nat :=
  if loops = 0 then 0 else (i - 1) % loops + 1

namespace ServerLoops

-- how many of the connections the server has given to loop `k`
def load (s : ServerLoops) (k : Nat) : Nat :=
  Nat.count (fun i => (s.conns i).any (·.loop_ = k)) s.server.nextConnId_

/--
The step accepts no connection and moves none.
-/
structure Stays (s s' : ServerLoops) : Prop where
  threadPool_ : s'.server.threadPool_ = s.server.threadPool_
  nextConnId_ : s'.server.nextConnId_ = s.server.nextConnId_
  loop_ : ∀ j, (s'.conns j).map Accepted.loop_ = (s.conns j).map Accepted.loop_

variable {s s' s₁ : ServerLoops} {i : Nat} {x : Accepted}

theorem Stays.trans (h₁ : Stays s s₁) (h₂ : Stays s₁ s') : Stays s s' :=
  ⟨h₂.threadPool_.trans h₁.threadPool_, h₂.nextConnId_.trans h₁.nextConnId_,
    fun j => (h₂.loop_ j).trans (h₁.loop_ j)⟩

theorem Acted.stays (h : Acted i x s s') (hx : s.conns i = some x) : Stays s s' := by
  have hserver : s'.server.threadPool_ = s.server.threadPool_
      ∧ s'.server.nextConnId_ = s.server.nextConnId_ := by
    cases h.server with
    | inl heq => rw [heq]; exact ⟨rfl, rfl⟩
    | inr heq => rw [heq]; exact ⟨rfl, rfl⟩
  refine ⟨hserver.1, hserver.2, fun j => ?_⟩
  by_cases heq : j = i
  . subst heq
    obtain ⟨x', hx', _, hloop, _⟩ := h.conn
    rw [hx', hx, Option.map_some, Option.map_some, hloop]
  . rw [h.conns j heq]

theorem stays_runFunctor {k : Nat} {message : List UInt8} {w : WriteResult} (h : s.Wired)
    (hnext : s.runFunctor k message w = some s') : Stays s s' := by
  unfold ServerLoops.runFunctor at hnext
  split at hnext
  . cases hnext
  . next cb functors hfunctors =>
    have hpopped : Stays s (s.setFunctors k functors) := ⟨rfl, rfl, fun _ => rfl⟩
    dsimp only at hnext
    split at hnext
    . next i =>
      simp only [Option.some.injEq] at hnext
      subst hnext
      obtain ⟨_, x, hx⟩ := h.removal k i (by simp [queueOf, hfunctors])
      have hx' : (s.setFunctors k functors).conns i = some x := hx
      exact hpopped.trans ((acted_removeConnectionInLoop hx').stays hx')
    . next i task =>
      simp only [Option.bind_eq_some_iff, Option.map_eq_some_iff] at hnext
      obtain ⟨x, hx, r, hrun, rfl⟩ := hnext
      exact hpopped.trans ((acted_runTask _ hrun).stays hx)

theorem stays_callback {k : Nat} {n : Int} {w : WriteResult} (hnext : s.callback k n w = some s')
    : Stays s s' := by
  unfold ServerLoops.callback at hnext
  split at hnext
  . cases hnext
  . next i callback todo htodo =>
    have hpopped : Stays s (s.setTodo k todo) := ⟨rfl, rfl, fun _ => rfl⟩
    simp only [Option.bind_eq_some_iff, Option.map_eq_some_iff] at hnext
    obtain ⟨x, hx, r, hrun, rfl⟩ := hnext
    exact hpopped.trans ((acted_runCallback _ hrun).stays hx)

theorem stays_of_step {a : Label} (h : s.Wired)
    (ha : ∀ sockfd highWaterMark, a ≠ .newConnection sockfd highWaterMark)
    (hstep : system.step s a = some s') : Stays s s' := by
  obtain ⟨henabled, hnext⟩ := LTS.guarded_step.mp hstep
  cases a with
  | newConnection sockfd highWaterMark => exact absurd rfl (ha sockfd highWaterMark)
  | handleEvent k =>
    simp only [next, ServerLoops.handleEvent] at hnext
    split at hnext
    . cases hnext
    . simp only [Option.map_eq_some_iff] at hnext
      obtain ⟨_, _, rfl⟩ := hnext
      exact ⟨rfl, rfl, fun _ => rfl⟩
  | callback k n w => exact stays_callback hnext
  | runFunctor k message w => exact stays_runFunctor h hnext
  | send i isInLoopThread message contents w =>
    simp only [next, Option.bind_eq_some_iff, Option.map_eq_some_iff] at hnext
    obtain ⟨x, hx, r, hsend, rfl⟩ := hnext
    exact (acted_send hsend).stays hx
  | shutdown i isInLoopThread =>
    simp only [next, Option.map_eq_some_iff] at hnext
    obtain ⟨x, hx, rfl⟩ := hnext
    exact (acted_shutdown rfl).stays hx
  | forceClose i isInLoopThread =>
    simp only [next, Option.map_eq_some_iff] at hnext
    obtain ⟨x, hx, rfl⟩ := hnext
    exact (acted_forceClose rfl).stays hx
  | destroyConnection i =>
    simp only [enabled, Bool.and_eq_true, Option.any_eq_true] at henabled
    obtain ⟨x, hx, _⟩ := henabled.2
    exact (acted_destroyConnection hx hnext).stays hx
  | poll | swap | endFunctors | destroy | endDestroy =>
    simp only [next, Option.some.injEq] at hnext
    subst hnext
    exact ⟨rfl, rfl, fun _ => rfl⟩

/--
The connections so far have been dealt out in turn, and `next_` is whose turn it is.
-/
structure Dealt (s : ServerLoops) : Prop where
  positive : 0 < s.server.nextConnId_
  next_ : s.server.threadPool_.next_
    = if s.server.threadPool_.loops_ = 0 then 0 else (s.server.nextConnId_ - 1) % s.server.threadPool_.loops_
  loop_ : ∀ j, (s.conns j).map Accepted.loop_
    = if 0 < j ∧ j < s.server.nextConnId_ then some (dealt s.server.threadPool_.loops_ j) else none

theorem Dealt.stays (h : s.Dealt) (hstays : Stays s s') : s'.Dealt := by
  refine ⟨hstays.nextConnId_ ▸ h.positive, ?_, fun j => ?_⟩
  . rw [hstays.threadPool_, hstays.nextConnId_]
    exact h.next_
  . rw [hstays.loop_ j, hstays.threadPool_, hstays.nextConnId_]
    exact h.loop_ j

-- whose turn it is behind the turn of `m`
theorem next_turn {loops : Nat} (m : Nat) (hloops : loops ≠ 0)
    : (if loops ≤ m % loops + 1 then 0 else m % loops + 1) = (m + 1) % loops := by
  have hlt := Nat.mod_lt m (Nat.pos_of_ne_zero hloops)
  rw [← Nat.mod_add_mod]
  split
  . next hlast =>
    have heq : m % loops + 1 = loops := by omega
    rw [heq, Nat.mod_self]
  . next hmore =>
    rw [Nat.mod_eq_of_lt (Nat.lt_of_not_le hmore)]

theorem getNextLoop_turn {p : EventLoopThreadPool} {m : Nat}
    (hnext : p.next_ = if p.loops_ = 0 then 0 else m % p.loops_)
    : p.getNextLoop.1 = dealt p.loops_ (m + 1) ∧ p.getNextLoop.2.loops_ = p.loops_
        ∧ p.getNextLoop.2.next_ = if p.loops_ = 0 then 0 else (m + 1) % p.loops_ := by
  unfold EventLoopThreadPool.getNextLoop dealt
  by_cases hzero : p.loops_ = 0
  . rw [if_neg (not_not_intro hzero), if_pos hzero, if_pos hzero]
    rw [if_pos hzero] at hnext
    exact ⟨rfl, rfl, hnext⟩
  . rw [if_neg hzero] at hnext
    rw [if_pos hzero, if_neg hzero, if_neg hzero, hnext]
    exact ⟨rfl, rfl, next_turn m hzero⟩

theorem Dealt.insertConnection (h : s.Dealt) (sockfd : Fd) (highWaterMark : Bool)
    : Dealt (s.insertConnection (s.accepted sockfd highWaterMark)) := by
  obtain ⟨hloop, hloops, hnext⟩ := getNextLoop_turn h.next_
  rw [Nat.sub_add_cancel h.positive] at hloop hnext
  refine ⟨Nat.succ_pos _, ?_, fun j => ?_⟩
  . change s.server.threadPool_.getNextLoop.2.next_ =
      if s.server.threadPool_.getNextLoop.2.loops_ = 0 then 0
      else (s.server.nextConnId_ + 1 - 1) % s.server.threadPool_.getNextLoop.2.loops_
    rw [hloops, Nat.add_sub_cancel]
    exact hnext
  . change _ = if 0 < j ∧ j < s.server.nextConnId_ + 1 then
      some (dealt s.server.threadPool_.getNextLoop.2.loops_ j) else none
    rw [hloops, ServerLoops.insertConnection, conns_setConn]
    by_cases heq : j = s.server.nextConnId_
    . have hpositive := h.positive
      rw [if_pos heq, if_pos (by omega), heq, ← hloop]
      rfl
    . have hsame : (0 < j ∧ j < s.server.nextConnId_ + 1) ↔ (0 < j ∧ j < s.server.nextConnId_) := by omega
      rw [if_neg heq]
      simp only [hsame]
      exact h.loop_ j

theorem dealt_newConnection {sockfd : Fd} {highWaterMark : Bool} (h : s.Dealt)
    (hnext : s.newConnection sockfd highWaterMark = some s') : s'.Dealt := by
  have hinserted := h.insertConnection sockfd highWaterMark
  have hconn : (s.insertConnection (s.accepted sockfd highWaterMark)).conns s.server.nextConnId_ =
      some (s.accepted sockfd highWaterMark) := by
    simp [ServerLoops.insertConnection]
  unfold ServerLoops.newConnection at hnext
  dsimp only at hnext
  split at hnext
  . simp only [Option.map_eq_some_iff] at hnext
    obtain ⟨r, hrun, rfl⟩ := hnext
    exact hinserted.stays ((acted_runTask _ hrun).stays hconn)
  . simp only [Option.some.injEq] at hnext
    subst hnext
    exact hinserted.stays ((acted_queueInLoop hconn 0 (.inl ⟨⟨_, rfl⟩, rfl⟩)).stays hconn)

theorem dealt_reachable (h : system.Reachable s) : s.Dealt := by
  induction h with
  | init hinit =>
    obtain ⟨⟨_, _, _, _, hserver⟩, hconns, _⟩ := hinit
    refine ⟨?_, ?_, fun j => ?_⟩
    . rw [hserver]
      exact Nat.one_pos
    . rw [hserver]
      simp [TcpServer.new]
    . have hnone : ¬(0 < j ∧ j < 1) := by omega
      rw [hconns j, hserver]
      exact (if_neg hnone).symm
  | @step s s' a hs _ hstep ih =>
    by_cases ha : ∃ sockfd highWaterMark, a = .newConnection sockfd highWaterMark
    . obtain ⟨sockfd, highWaterMark, rfl⟩ := ha
      exact dealt_newConnection ih (LTS.guarded_step.mp hstep).2
    . exact ih.stays (stays_of_step (wired_reachable hs) (fun _ _ heq => ha ⟨_, _, heq⟩) hstep)

theorem Dealt.any_loop_iff (h : s.Dealt) (j k : Nat)
    : (s.conns j).any (·.loop_ = k) = true
        ↔ (0 < j ∧ j < s.server.nextConnId_) ∧ dealt s.server.threadPool_.loops_ j = k := by
  have hany : (s.conns j).any (·.loop_ = k) = true ↔ (s.conns j).map Accepted.loop_ = some k := by
    simp [Option.any_eq_true, Option.map_eq_some_iff]
  rw [hany, h.loop_ j]
  split
  . next hj => simp [hj]
  . next hj => simp [hj]

theorem Dealt.load_zero (h : s.Dealt) (hloops : s.server.threadPool_.loops_ ≠ 0) : s.load 0 = 0 := by
  refine Nat.count_of_forall_not fun i _ hload => ?_
  rw [h.any_loop_iff, dealt, if_neg hloops] at hload
  cases hload.2

/--
Io loop `k` has got every connection whose turn was its own.
-/
theorem Dealt.load_eq (h : s.Dealt) {k : Nat} (hk : k < s.server.threadPool_.loops_)
    : s.load (k + 1)
        = (s.server.nextConnId_ - 1) / s.server.threadPool_.loops_
          + if k < (s.server.nextConnId_ - 1) % s.server.threadPool_.loops_ then 1 else 0 := by
  have hloops : s.server.threadPool_.loops_ ≠ 0 := Nat.ne_of_gt (Nat.zero_lt_of_lt hk)
  obtain ⟨m, hm⟩ : ∃ m, s.server.nextConnId_ = 1 + m := ⟨s.server.nextConnId_ - 1, by have := h.positive; omega⟩
  have hcount := Nat.count_modEq_card m (Nat.pos_of_ne_zero hloops) k
  rw [Nat.mod_eq_of_lt hk] at hcount
  have hfirst : Nat.count (fun i => (s.conns i).any (·.loop_ = k + 1) = true) 1 = 0 := by
    rw [Nat.count_one, if_neg]
    rw [h.any_loop_iff]
    omega
  have hturn : ∀ i ∈ Finset.range m, (s.conns (1 + i)).any (·.loop_ = k + 1) = true
      ↔ i ≡ k [MOD s.server.threadPool_.loops_] := by
    intro i hi
    rw [Finset.mem_range] at hi
    rw [h.any_loop_iff, dealt, if_neg hloops, Nat.add_sub_cancel_left, Nat.ModEq, Nat.mod_eq_of_lt hk, hm]
    omega
  rw [load, hm, Nat.count_add, hfirst, Nat.zero_add, Nat.add_sub_cancel_left, ← hcount,
    Nat.count_eq_card_filter_range, Nat.count_eq_card_filter_range, Finset.filter_congr hturn]

/--
Every connection is given to the io loop whose turn it is, and never do two io loops differ by more than one
connection.
-/
theorem dealt_in_turn (s : ServerLoops) (h : system.Reachable s)
    : (∀ i, (s.conns i).map Accepted.loop_
          = if 0 < i ∧ i < s.server.nextConnId_ then some (dealt s.server.threadPool_.loops_ i) else none)
        ∧ (s.server.threadPool_.loops_ ≠ 0 → s.load 0 = 0)
        ∧ ∀ k k', k < s.server.threadPool_.loops_ → k' < s.server.threadPool_.loops_ →
          s.load (k + 1) ≤ s.load (k' + 1) + 1 := by
  have hdealt := dealt_reachable h
  refine ⟨hdealt.loop_, hdealt.load_zero, fun k k' hk hk' => ?_⟩
  rw [hdealt.load_eq hk, hdealt.load_eq hk']
  split <;> split <;> omega

-- three connections on two io loops
def threeAccepted : ServerLoops :=
  (system.run (started 2) [.newConnection 7 false, .newConnection 8 false, .newConnection 9 false]).get rfl

theorem dealt_in_turn_threeAccepted
    : threeAccepted.load 1 = 2 ∧ threeAccepted.load 2 = 1
        ∧ threeAccepted.load (0 + 1) ≤ threeAccepted.load (1 + 1) + 1 := by
  have hreachable : system.Reachable threeAccepted :=
    LTS.Reachable.run (.init (started_init 2)) (Option.some_get _).symm
  exact ⟨by decide +kernel, by decide +kernel,
    (dealt_in_turn threeAccepted hreachable).2.2 0 1 (by decide +kernel) (by decide +kernel)⟩

end ServerLoops

end TcpServer

end MyMuduo
