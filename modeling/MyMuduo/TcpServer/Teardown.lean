import MyMuduo.TcpServer.Lifecycle

/-!
This module contains the destructor of the server in runs in which connections are being closed.
-/

namespace MyMuduo

namespace TcpServer

open TcpConnection (Task Notice Functor Quiet)

def ServerTask.isRemoval : ServerTask → Bool
  | .removeConnectionInLoop _ => true
  | .conn .. => false

namespace ServerLoops

-- the step runs `handleClose` of a connection
def closes (s : ServerLoops) : Label → Bool
  | .callback k n _ =>
    (s.loops k).todo.head?.any fun report => report.2 = .close || report.2 = .read && n = 0
  | .runFunctor k _ _ =>
    (s.loops k).loop.functors.head?.any fun
      | .conn i .forceCloseInLoop =>
        (s.conns i).any fun x => x.conn.state_ = .kConnected || x.conn.state_ = .kDisconnecting
      | _ => false
  | _ => false

-- the destructor begins when no close is in flight, and from then on none is handled
def closedBefore (s : ServerLoops) : Label → Bool
  | .destroy => !(queueOf (s.loops 0).loop).any ServerTask.isRemoval
  | a => s.teardown = .running || !s.closes a

end ServerLoops

/--
No call of `removeConnectionInLoop` waits, and `connectDestroyed` has run, waits, or is still to be queued by the
destructor.
-/
structure Spent (x : Accepted) (v : View) : Prop where
  removals : v.removals = 0
  once : x.log.count .connectDestroyed + v.tasks.count .connectDestroyed + v.inMap.toNat ≤ 1

variable {i : Nat} {x : Accepted} {v : View}

theorem Stage.spent (h : Stage i x v) (hremovals : v.removals = 0) : Spent x v := by
  refine ⟨hremovals, ?_⟩
  cases h with
  | accepted log _ _ _ _ tasks _ _ _ inMap => simp [log, tasks, inMap]
  | established lived _ _ _ _ destroyed _ inMap => simp [lived.count, destroyed, inMap]
  | closed _ _ _ _ _ removals => simp [hremovals] at removals
  | removed lived _ _ _ destroyed _ inMap => simp [lived.count, destroyed, inMap]
  | destroyed lived _ _ destroyed _ inMap => simp [lived.count, destroyed, inMap]

namespace ServerLoops

structure Torn (s : ServerLoops) : Prop extends Wired s where
  late : s.late = false
  spent : ∀ i x, s.conns i = some x → Spent x (s.view i x)

variable {s s' : ServerLoops} {j k : Nat} {y : Accepted}

theorem Torn.of_destroy (h : s.Inv) (hlate : s.late = false)
    (hnone : (queueOf (s.loops 0).loop).any ServerTask.isRemoval = false)
    : Torn { s with teardown := .destroying } := by
  refine ⟨⟨h.ipPort_, h.nextConnId_, h.fresh, h.name, h.addr, h.fds, h.map, h.conn, h.removal, h.active, h.todo,
    h.handling⟩, hlate, ?_⟩
  intro i x hx
  apply (h.staged i x hx).spent
  simp only [view, removalsOf, List.count_eq_zero]
  intro hmem
  exact List.any_eq_false.mp hnone _ hmem rfl

theorem Torn.acted {s₁ : ServerLoops} (hspent : ∀ j y, j ≠ i → s₁.conns j = some y → Spent y (s₁.view j y))
    (h : s₁.Wired) (hx : s₁.conns i = some x) (hacted : Acted i x s₁ s') (hlate : s'.late = false)
    (hself : ∀ x', s'.conns i = some x' → Spent x' (s'.view i x')) : s'.Torn := by
  refine ⟨h.acted hx hacted, hlate, ?_⟩
  intro j y hy
  by_cases heq : j = i
  . subst heq
    exact hself y hy
  . rw [hacted.conns j heq] at hy
    rw [hacted.view_of_ne h hx heq hy]
    exact ⟨(hspent j y heq hy).removals, (hspent j y heq hy).once⟩

section

variable {s₁ : ServerLoops} (hspent : ∀ j y, j ≠ i → s₁.conns j = some y → Spent y (s₁.view j y)) (h : s₁.Wired)
  (hx : s₁.conns i = some x) (hlate : s₁.late = false)

include hspent h hx hlate

theorem Torn.finish {events : List LifeEvent} {c' : TcpConnection} {l' : EventLoop ServerTask}
    {notices : List Notice} (hacted : Acted i x s₁ (s₁.finish i x events (c', l', notices)))
    (hnotClose : .closeCallback ∉ notices) {tasks : List Task}
    (happended : Appended (s₁.loops x.loop_).loop l' (tasks.map (.conn i))) (htasks : .connectDestroyed ∉ tasks)
    (hremovals : (s₁.view i x).removals = 0)
    (honce : x.log.count .connectDestroyed + events.count .connectDestroyed
      + (s₁.view i x).tasks.count .connectDestroyed + (s₁.view i x).inMap.toNat ≤ 1)
    : (s₁.finish i x events (c', l', notices)).Torn := by
  refine .acted hspent h hx hacted ?_ ?_
  all_goals
    rw [finish_of_not_close hnotClose]
  . exact hlate
  intro x' hx'
  rw [conns_put, Option.some.injEq] at hx'
  subst hx'
  rw [view_put _ _ happended]
  refine ⟨hremovals, ?_⟩
  rw [List.count_append, List.count_append, List.count_eq_zero.mpr htasks]
  exact honce

end

-- a step of a loop that leaves its queue
theorem Torn.of_loop (h : s.Torn) {l : ServerLoop}
    (hwired : Wired { s with loops := Function.update s.loops k l })
    (hqueue : queueOf l.loop = queueOf (s.loops k).loop) : Torn { s with loops := Function.update s.loops k l } := by
  refine ⟨hwired, h.late, ?_⟩
  intro j y hy
  have hspent := h.spent j y hy
  have hremovals : removalsOf j l.loop = removalsOf j (s.loops k).loop := by
    rw [removalsOf, hqueue, removalsOf]
  by_cases hloop : y.loop_ = k
  . rw [view_loop hremovals hloop]
    have htasks : tasksOf j l.loop = (s.view j y).tasks := by
      rw [tasksOf, hqueue, ← hloop]
      rfl
    rw [htasks]
    exact ⟨hspent.removals, hspent.once⟩
  . rw [view_loop_of_ne hremovals hloop]
    exact hspent

theorem not_close_of_quiet {bind : Functor → ServerTask} {c c' : TcpConnection} {l l' : EventLoop ServerTask}
    {notices : List Notice} (h : Quiet bind c l c' l' notices) : .closeCallback ∉ notices := by
  intro hmem
  cases h.notices _ hmem

theorem not_close_of_connectDestroyed {c c' : TcpConnection} {l l' : EventLoop ServerTask} {notices : List Notice}
    (h : c.connectDestroyed l = some (c', l', notices)) : .closeCallback ∉ notices := by
  simp only [TcpConnection.connectDestroyed, Option.bind_eq_some_iff, Option.map_eq_some_iff, Prod.mk.injEq] at h
  obtain ⟨⟨c₁, l₁, notices₁⟩, hclosed, _, _, _, _, rfl⟩ := h
  split at hclosed
  . simp only [Option.map_eq_some_iff, Prod.mk.injEq] at hclosed
    obtain ⟨_, _, _, _, rfl⟩ := hclosed
    simp
  . simp only [Option.some.injEq, Prod.mk.injEq] at hclosed
    obtain ⟨_, _, rfl⟩ := hclosed
    simp

theorem not_close_of_runTask {c c' : TcpConnection} {l l' : EventLoop ServerTask} {message : List UInt8}
    {w : WriteResult} {task : Task} {notices : List Notice}
    (h : c.runTask (.conn i) l message w task = some (c', l', notices))
    (hclose : task = .forceCloseInLoop → ¬(c.state_ = .kConnected ∨ c.state_ = .kDisconnecting))
    : .closeCallback ∉ notices := by
  by_cases hopen : task = .connectEstablished
  . subst hopen
    simp only [TcpConnection.runTask, Option.map_eq_some_iff, Prod.mk.injEq] at h
    obtain ⟨_, _, _, _, rfl⟩ := h
    simp
  . obtain ⟨hquiet, _⟩ | ⟨heq, hup, _⟩ | ⟨_, hdestroy⟩ := TcpConnection.runTask_cases h hopen
    . exact not_close_of_quiet hquiet
    . exact absurd hup (hclose heq)
    . exact not_close_of_connectDestroyed hdestroy

theorem Torn.callback (h : s.Torn) {n : Int} {w : WriteResult} (hcloses : s.closes (.callback k n w) = false)
    (hnext : s.callback k n w = some s') : s'.Torn := by
  unfold ServerLoops.callback at hnext
  split at hnext
  . cases hnext
  . next i callback todo htodo =>
    simp only [Option.bind_eq_some_iff, Option.map_eq_some_iff] at hnext
    obtain ⟨x, hx, ⟨c', l', notices⟩, hrun, rfl⟩ := hnext
    have hpopped : (s.setTodo k todo).Torn := h.of_loop (h.popTodo htodo) rfl
    have hspent := hpopped.spent i x hx
    simp only [closes, htodo, List.head?_cons, Option.any_some, Bool.or_eq_false_iff, Bool.and_eq_false_iff,
      decide_eq_false_iff_not] at hcloses
    obtain hquiet | ⟨hkind, _⟩ := TcpConnection.runCallback_cases hrun
    . obtain ⟨fs, hpending⟩ := hquiet.pending
      have happended : Appended ((s.setTodo k todo).loops x.loop_).loop l' ((fs.map Task.own).map (.conn i)) :=
        ⟨hquiet.functors, by rw [hpending, List.map_map]⟩
      exact .finish (fun j y _ => hpopped.spent j y) hpopped.toWired hx hpopped.late
        (acted_runCallback _ hrun) (not_close_of_quiet hquiet) happended (by simp) hspent.removals hspent.once
    . obtain heq | ⟨heq, hzero⟩ := hkind
      . exact absurd heq hcloses.1
      . simp [heq, hzero] at hcloses

theorem Torn.runFunctor (h : s.Torn) {message : List UInt8} {w : WriteResult}
    (hcloses : s.closes (.runFunctor k message w) = false) (hnext : s.runFunctor k message w = some s')
    : s'.Torn := by
  unfold ServerLoops.runFunctor at hnext
  split at hnext
  . cases hnext
  . next cb functors hfunctors =>
    have hpopped := h.popFunctor hfunctors
    dsimp only at hnext
    split at hnext
    . next i =>
      obtain ⟨rfl, x, hx⟩ := h.removal k i (by simp [queueOf, hfunctors])
      have hremovals := (h.spent i x hx).removals
      rw [view_popRemoval hfunctors] at hremovals
      cases hremovals
    . next i task =>
      simp only [Option.bind_eq_some_iff, Option.map_eq_some_iff] at hnext
      obtain ⟨x, hx, ⟨c', l', notices⟩, hrun, rfl⟩ := hnext
      have hconn : s.conns i = some x := hx
      have hloop : x.loop_ = k := by
        obtain ⟨x', hconn', hloop⟩ := h.conn k i task (by simp [queueOf, hfunctors])
        rw [hconn, Option.some.injEq] at hconn'
        exact hconn' ▸ hloop
      subst hloop
      have hspent := h.spent i x hconn
      rw [view_popTask rfl hfunctors] at hspent
      have hnotClose : .closeCallback ∉ notices := by
        apply not_close_of_runTask hrun
        rintro rfl hup
        simp only [closes, hfunctors, hconn, List.head?_cons, Option.any_some, Bool.or_eq_false_iff,
          decide_eq_false_iff_not] at hcloses
        exact hup.elim hcloses.1 hcloses.2
      obtain ⟨hfunctors', fs, hpending⟩ := TcpConnection.frame_runTask hrun
      have happended : Appended ((s.setFunctors x.loop_ functors).loops x.loop_).loop l'
          ((fs.map Task.own).map (.conn i)) :=
        ⟨hfunctors', by rw [hpending, List.map_map]⟩
      refine .finish ?_ hpopped hx h.late (acted_runTask _ hrun) hnotClose happended (by simp) hspent.removals ?_
      . intro j y hne hy
        rw [view_popFunctor_of_ne hfunctors (task?_conn_of_ne hne task) (by simp)]
        exact h.spent j y hy
      . have honce := hspent.once
        have hcount : (taskEvents task).count .connectDestroyed = [task].count .connectDestroyed := by
          cases task <;> rfl
        dsimp only at honce
        rw [List.count_cons] at honce
        rw [hcount, List.count_singleton]
        omega

theorem Torn.call (h : s.Torn) {i : Nat} {x : Accepted} (hx : s.conns i = some x) {c' : TcpConnection}
    {l' : EventLoop ServerTask} (hacted : Acted i x s (s.put i x c' l')) {tasks : List Task}
    (happended : Appended (s.loops x.loop_).loop l' (tasks.map (.conn i))) (htasks : .connectDestroyed ∉ tasks)
    : (s.put i x c' l').Torn := by
  have hput : s.finish i x [] (c', l', []) = s.put i x c' l' := by
    simp [ServerLoops.finish]
  have hspent := h.spent i x hx
  rw [← hput] at hacted ⊢
  exact .finish (fun j y _ => h.spent j y) h.toWired hx h.late hacted (by simp) happended htasks hspent.removals
    hspent.once

theorem view_erase (s : ServerLoops) (i : Nat) (x : Accepted)
    : view { s with server := s.server.erase x.name } i x = { s.view i x with inMap := false } := by
  simp only [view, not_contains_erase]

theorem Torn.erase (h : s.Torn) {i : Nat} {x : Accepted} (hx : s.conns i = some x)
    : Torn { s with server := s.server.erase x.name } := by
  refine .acted (fun j y _ => h.spent j y) h.toWired hx (acted_erase hx) h.late ?_
  intro x' hx'
  have hconn : s.conns i = some x' := hx'
  rw [hx, Option.some.injEq] at hconn
  subst hconn
  obtain ⟨hremovals, honce⟩ := h.spent i x hx
  rw [view_erase]
  exact ⟨hremovals, by simp; omega⟩

theorem Torn.destroyConnection (h : s.Torn) {i : Nat} {x : Accepted} (hx : s.conns i = some x)
    (hmem : s.server.connections_.contains (x.name, i) = true) (hnext : s.destroyConnection i = some s') : s'.Torn := by
  obtain ⟨hremovals, honce⟩ := h.spent i x hx
  have hinMap : (s.view i x).inMap = true := hmem
  rw [hinMap, Bool.toNat_true] at honce
  have herased := h.erase hx
  have hconn : { s with server := s.server.erase x.name }.conns i = some x := hx
  simp only [ServerLoops.destroyConnection, hx, Option.bind_some] at hnext
  split at hnext
  . next hloop =>
    rw [← hloop] at hnext
    simp only [Option.map_eq_some_iff] at hnext
    obtain ⟨⟨c', l', notices⟩, hdestroy, rfl⟩ := hnext
    obtain ⟨hfunctors, hpending⟩ := TcpConnection.frame_connectDestroyed hdestroy
    have happended : Appended (s.loops x.loop_).loop l' (([] : List Task).map (.conn i)) := .of_eq hfunctors hpending
    refine .finish (fun j y _ => herased.spent j y) herased.toWired hconn h.late
      (acted_finish (TcpConnection.through_connectDestroyed hdestroy).confined happended)
      (not_close_of_connectDestroyed hdestroy) happended (by simp) ?_ ?_
    . rw [view_erase]
      exact hremovals
    . rw [view_erase]
      simp
      omega
  . simp only [Option.some.injEq] at hnext
    subst hnext
    refine .acted (fun j y _ => herased.spent j y) herased.toWired hconn
      (acted_queueInLoop hconn 0 (.inl ⟨⟨_, rfl⟩, rfl⟩)) h.late ?_
    intro x' hx'
    have hsame : s.conns i = some x' := hx'
    rw [hx, Option.some.injEq] at hsame
    subst hsame
    rw [view_queue_conn, view_erase]
    refine ⟨hremovals, ?_⟩
    simp only [List.count_append, List.count_singleton_self, Bool.toNat_false]
    omega

theorem Torn.step {a : Label} (h : s.Torn) (hteardown : s.teardown ≠ .running) (hok : s.closedBefore a = true)
    (hstep : system.step s a = some s') : s'.Torn := by
  obtain ⟨henabled, hnext⟩ := LTS.guarded_step.mp hstep
  have hcloses : s.closes a = false := by
    cases a <;> simp_all [closedBefore, closes]
  cases a with
  | newConnection sockfd highWaterMark =>
    simp only [enabled, Bool.and_eq_true, decide_eq_true_eq] at henabled
    exact absurd henabled.2 hteardown
  | poll k reports =>
    simp only [next, Option.some.injEq] at hnext
    subst hnext
    simp only [enabled, Bool.and_eq_true, decide_eq_true_eq] at henabled
    exact h.of_loop (h.poll henabled.1.1.2 henabled.1.2 henabled.2) rfl
  | handleEvent k =>
    have hwired := h.toWired.handleEvent hnext
    simp only [next, ServerLoops.handleEvent] at hnext
    split at hnext
    . cases hnext
    . simp only [Option.map_eq_some_iff] at hnext
      obtain ⟨x, _, rfl⟩ := hnext
      exact h.of_loop hwired rfl
  | callback k n w => exact h.callback hcloses hnext
  | swap k =>
    simp only [next, Option.some.injEq] at hnext
    subst hnext
    simp only [enabled, Bool.and_eq_true, decide_eq_true_eq, List.isEmpty_iff] at henabled
    have hfunctors := (h.handling k).functors (by simp [henabled.1.1.2])
    have hwired := h.toWired.swap henabled.1.2 henabled.2
    rw [swap_eq] at hwired ⊢
    exact h.of_loop hwired (by simp [queueOf, EventLoop.swapFunctors, hfunctors])
  | runFunctor k message w => exact h.runFunctor hcloses hnext
  | endFunctors k =>
    simp only [next, Option.some.injEq] at hnext
    subst hnext
    simp only [enabled, Bool.and_eq_true, decide_eq_true_eq, List.isEmpty_iff] at henabled
    exact h.of_loop (h.endFunctors henabled.1.2 henabled.2) rfl
  | send i isInLoopThread message contents w =>
    simp only [next, Option.bind_eq_some_iff, Option.map_eq_some_iff] at hnext
    obtain ⟨x, hx, r, hsend, rfl⟩ := hnext
    obtain ⟨fs, happended⟩ := appended_send (.conn i) hsend
    exact h.call hx (acted_send hsend) happended (by simp)
  | shutdown i isInLoopThread =>
    simp only [next, Option.map_eq_some_iff] at hnext
    obtain ⟨x, hx, rfl⟩ := hnext
    obtain ⟨fs, happended⟩ := appended_shutdown (.conn i) rfl
    exact h.call hx (acted_shutdown rfl) happended (by simp)
  | forceClose i isInLoopThread =>
    simp only [next, Option.map_eq_some_iff] at hnext
    obtain ⟨x, hx, rfl⟩ := hnext
    obtain ⟨tasks, happended, htasks⟩ := appended_forceClose (.conn i) rfl
    refine h.call hx (acted_forceClose rfl) happended ?_
    intro hmem
    cases htasks _ hmem
  | destroyConnection i =>
    simp only [enabled, Bool.and_eq_true, Option.any_eq_true] at henabled
    obtain ⟨_, x, hx, hmem⟩ := henabled
    exact h.destroyConnection hx hmem hnext
  | destroy =>
    simp only [enabled, decide_eq_true_eq] at henabled
    exact absurd henabled hteardown
  | endDestroy =>
    simp only [next, Option.some.injEq] at hnext
    subst hnext
    exact ⟨⟨h.ipPort_, h.nextConnId_, h.fresh, h.name, h.addr, h.fds, h.map, h.conn, h.removal, h.active, h.todo,
      h.handling⟩, h.late, h.spent⟩

end ServerLoops

end TcpServer

end MyMuduo
