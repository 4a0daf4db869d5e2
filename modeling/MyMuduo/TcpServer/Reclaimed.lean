import MyMuduo.TcpServer.Progress

/-!
This module contains the way of a connection in a server whose loops go on: it is established at last, and once it
closes it is removed and destroyed at last.
-/

namespace MyMuduo

namespace TcpServer

open TcpConnection (Task)

namespace ServerLoops

variable {s s' : ServerLoops} {i k : Nat} {x : Accepted}

/--
What the functor of a connection writes down.
-/
theorem ran_task (hinv : s.Wired) {message : List UInt8} {w : WriteResult} {task : Task} {functors : List ServerTask}
    (hfunctors : (s.loops k).loop.functors = .conn i task :: functors) (hnext : s.runFunctor k message w = some s')
    : ∃ x r, s.conns i = some x ∧ x.loop_ = k
        ∧ x.conn.runTask (.conn i) ((s.setFunctors k functors).loops x.loop_).loop message w task = some r
        ∧ (∀ event, event ∈ x.log ∨ event ∈ taskEvents task → event ∈ s'.logOf i)
        ∧ (.closeCallback ∈ r.2.2 → .handleClose ∈ s'.logOf i) := by
  obtain ⟨x, hx, hloop⟩ := hinv.conn k i task (by simp [queueOf, hfunctors])
  have hconn : (s.setFunctors k functors).conns i = some x := hx
  simp only [ServerLoops.runFunctor, hfunctors, hconn, Option.bind_some, Option.map_eq_some_iff] at hnext
  obtain ⟨r, hrun, rfl⟩ := hnext
  obtain ⟨x', heq, _, hprefix, hclose⟩ := conns_finish (s.setFunctors k functors) i x (taskEvents task) r
  have hx' : ((s.setFunctors k functors).finish i x (taskEvents task) r).conns i = some x' := by
    rw [heq, Function.update_self]
  exact ⟨x, r, hx, hloop, hrun,
    fun event hevent => mem_logOf.mpr ⟨x', hx', hprefix.subset (List.mem_append.mpr hevent)⟩,
    fun hmem => mem_logOf.mpr ⟨x', hx', hclose hmem⟩⟩

theorem ran_removal (hinv : s.Wired) {message : List UInt8} {w : WriteResult} {functors : List ServerTask}
    (hfunctors : (s.loops k).loop.functors = .removeConnectionInLoop i :: functors)
    (hnext : s.runFunctor k message w = some s') : .removeConnectionInLoop ∈ s'.logOf i := by
  obtain ⟨_, x, hx⟩ := hinv.removal k i (by simp [queueOf, hfunctors])
  have hconn : (s.setFunctors k functors).conns i = some x := hx
  simp only [ServerLoops.runFunctor, hfunctors, Option.some.injEq] at hnext
  subst hnext
  have hx' : ((s.setFunctors k functors).removeConnectionInLoop i).conns i =
      some { x with log := x.log ++ [LifeEvent.removeConnectionInLoop] } := by
    rw [conns_removeConnectionInLoop hconn, Function.update_self]
  exact mem_logOf.mpr ⟨_, hx', by simp⟩

-- once a connection is established, `forceCloseInLoop` finds it up or closed
theorem ran_forceCloseInLoop (hinv : s.Inv) {message : List UInt8} {w : WriteResult} {functors : List ServerTask}
    (hfunctors : (s.loops k).loop.functors = .conn i .forceCloseInLoop :: functors)
    (hnext : s.runFunctor k message w = some s') : .handleClose ∈ s'.logOf i := by
  obtain ⟨x, r, hx, hloop, hrun, hlog, hclose⟩ := ran_task hinv.toWired hfunctors hnext
  have hwaits : .forceCloseInLoop ∈ (s.view i x).tasks := by
    subst hloop
    exact mem_tasksOf.mpr (by simp [queueOf, hfunctors])
  cases hinv.staged i x hx with
  | accepted _ _ _ _ _ tasks => simp [tasks] at hwaits
  | established _ up =>
    simp only [TcpConnection.runTask, TcpConnection.forceCloseInLoop, if_pos up] at hrun
    exact hclose (TcpConnection.closeCallback_handleClose hrun)
  | closed lived | removed lived | destroyed lived => exact hlog _ (.inl (by simp [lived.mem]))

section

variable {E : system.Execution} (hrunning : ∀ n, (E.state n).teardown = .running) (hfair : Fair E)
include hrunning hfair

theorem established (i : Nat)
    : E.LeadsTo (fun s => (s.conns i).isSome = true) fun s => .connectEstablished ∈ s.logOf i := by
  intro n hsome
  obtain ⟨x, hx⟩ := Option.isSome_iff_exists.mp hsome
  have hcount := ((inv_reachable (E.reachable n) (hrunning n)).staged i x hx).count
  by_cases hmem : .connectEstablished ∈ x.log
  . exact ⟨n, Nat.le_refl n, mem_logOf.mpr ⟨x, hx, hmem⟩⟩
  . have hwaits : .connectEstablished ∈ (tasksOf i ((E.state n).loops x.loop_).loop) := by
      rw [List.count_eq_zero.mpr hmem, Nat.zero_add] at hcount
      exact List.count_pos_iff.mp (Nat.lt_of_lt_of_eq Nat.one_pos hcount.symm)
    refine served hrunning hfair (Q := fun s => .connectEstablished ∈ s.logOf i) x.loop_
      (.conn i .connectEstablished) ?_ n (mem_tasksOf.mp hwaits)
    intro m message w functors hfunctors hnext
    obtain ⟨_, _, _, _, _, hlog, _⟩ := ran_task (wired_reachable (E.reachable m)) hfunctors hnext
    exact hlog _ (.inr (by simp [taskEvents]))

/--
A hang-up that epoll has reported closes the connection.
-/
theorem closed_of_hangUp {k : Nat} (i : Nat) {revents : Events} (hhup : revents &&& EPOLLHUP ≠ 0)
    (hin : revents &&& EPOLLIN = 0)
    : E.LeadsTo (fun s => (i, revents) ∈ (s.loops k).active) fun s => .handleClose ∈ s.logOf i := by
  intro n hactive
  have hreported : (E.state n).Reported k i .close := .inl ⟨revents, hactive, close_mem_dispatched hhup hin⟩
  refine handled hrunning hfair (Q := fun s => .handleClose ∈ s.logOf i) k i .close ?_ n hreported
  intro m r w todo htodo hnext
  simp only [ServerLoops.callback, htodo, Option.bind_eq_some_iff, Option.map_eq_some_iff] at hnext
  obtain ⟨x, hx, result, hrun, heq⟩ := hnext
  obtain ⟨x', hconns, _, _, hclose⟩ := conns_finish ((E.state m).setTodo k todo) i x [.channelEvent] result
  have hx' : (E.state (m + 1)).conns i = some x' := by
    rw [← heq, hconns, Function.update_self]
  exact mem_logOf.mpr ⟨x', hx', hclose (TcpConnection.closeCallback_handleClose hrun)⟩

/--
`forceClose` closes a connection that is established, unless it is closed already.
-/
theorem closed_of_forceClose {n i : Nat} {isInLoopThread : Bool} (hlabel : E.label n = .forceClose i isInLoopThread)
    (hestablished : .connectEstablished ∈ (E.state n).logOf i)
    : ∃ m, n ≤ m ∧ .handleClose ∈ (E.state m).logOf i := by
  obtain ⟨x, hx, hlog⟩ := mem_logOf.mp hestablished
  cases (inv_reachable (E.reachable n) (hrunning n)).staged i x hx with
  | accepted log => simp [log] at hlog
  | closed lived | removed lived | destroyed lived =>
    exact ⟨n, Nat.le_refl n, mem_logOf.mpr ⟨x, hx, by simp [lived.mem]⟩⟩
  | established _ up =>
    have hnext := (LTS.guarded_step.mp (E.step n)).2
    simp only [hlabel, next, hx, Option.map_some, Option.some.injEq] at hnext
    obtain ⟨c', l', heq, _, _, hfunctors, hqueued, _⟩ := TcpConnection.forceClose_spec (ServerTask.conn i)
      isInLoopThread x.conn ((E.state n).loops x.loop_).loop
    rw [heq] at hnext
    have hwaits : .conn i .forceCloseInLoop ∈ queueOf ((E.state (n + 1)).loops x.loop_).loop := by
      rw [← hnext]
      simp [put, queueOf, (hqueued up).1]
    have hserved := served hrunning hfair (Q := fun s => .handleClose ∈ s.logOf i) x.loop_ (.conn i .forceCloseInLoop)
      fun m _ _ _ hfunctors hnext => ran_forceCloseInLoop (inv_reachable (E.reachable m) (hrunning m)) hfunctors hnext
    obtain ⟨m, hle, hclosed⟩ := hserved (n + 1) hwaits
    exact ⟨m, Nat.le_of_succ_le hle, hclosed⟩

theorem removed (i : Nat)
    : E.LeadsTo (fun s => .handleClose ∈ s.logOf i) fun s => .removeConnectionInLoop ∈ s.logOf i := by
  intro n hclosed
  obtain ⟨x, hx, hlog⟩ := mem_logOf.mp hclosed
  cases (inv_reachable (E.reachable n) (hrunning n)).staged i x hx with
  | accepted log => simp [log] at hlog
  | established lived => simp [lived.mem] at hlog
  | closed _ _ _ _ _ removals =>
    have hwaits : .removeConnectionInLoop i ∈ queueOf ((E.state n).loops 0).loop :=
      List.count_pos_iff.mp (Nat.lt_of_lt_of_eq Nat.one_pos removals.symm)
    have hserved := served hrunning hfair (Q := fun s => .removeConnectionInLoop ∈ s.logOf i) 0
      (.removeConnectionInLoop i) fun m _ _ _ hfunctors hnext =>
        ran_removal (wired_reachable (E.reachable m)) hfunctors hnext
    exact hserved n hwaits
  | removed lived | destroyed lived => exact ⟨n, Nat.le_refl n, mem_logOf.mpr ⟨x, hx, by simp [lived.mem]⟩⟩

theorem destroyed (i : Nat)
    : E.LeadsTo (fun s => .removeConnectionInLoop ∈ s.logOf i) fun s => .connectDestroyed ∈ s.logOf i := by
  intro n hremoved
  obtain ⟨x, hx, hlog⟩ := mem_logOf.mp hremoved
  cases (inv_reachable (E.reachable n) (hrunning n)).staged i x hx with
  | accepted log => simp [log] at hlog
  | established lived | closed lived => simp [lived.mem] at hlog
  | removed _ _ _ _ waits =>
    have hwaits : .connectDestroyed ∈ tasksOf i ((E.state n).loops x.loop_).loop :=
      List.count_pos_iff.mp (Nat.lt_of_lt_of_eq Nat.one_pos waits.symm)
    refine served hrunning hfair (Q := fun s => .connectDestroyed ∈ s.logOf i) x.loop_ (.conn i .connectDestroyed) ?_
      n (mem_tasksOf.mp hwaits)
    intro m message w functors hfunctors hnext
    obtain ⟨_, _, _, _, _, hlog, _⟩ := ran_task (wired_reachable (E.reachable m)) hfunctors hnext
    exact hlog _ (.inr (by simp [taskEvents]))
  | destroyed lived => exact ⟨n, Nat.le_refl n, mem_logOf.mpr ⟨x, hx, by simp [lived.mem]⟩⟩

end

/--
The connection is destroyed, and nothing of it is left on the server or in the poller of its loop.
-/
def Gone (s : ServerLoops) (i : Nat) : Prop :=
  ∃ x, s.conns i = some x ∧ .connectDestroyed ∈ x.log ∧ x.conn.state_ = .kDisconnected
    ∧ (x.name, i) ∉ s.server.connections_
    ∧ ∀ events, (s.loops x.loop_).loop.poller.epoll x.conn.channel.fd ≠ some (events, i)

theorem gone_of_destroyed (hinv : s.Inv) (hdestroyed : .connectDestroyed ∈ s.logOf i) : s.Gone i := by
  obtain ⟨x, hx, hlog⟩ := mem_logOf.mp hdestroyed
  refine ⟨x, hx, hlog, ?_⟩
  cases hinv.staged i x hx with
  | accepted log => simp [log] at hlog
  | established lived | closed lived | removed lived => simp [lived.mem] at hlog
  | destroyed _ shut entry _ _ inMap =>
    refine ⟨shut.state_, ?_, entry⟩
    simpa [view] using inMap

/--
The connection is closed, epoll has reported EPOLLHUP without EPOLLIN, which `handleEventWithGuard` takes for a
close, or the user closes it.
-/
def Closing (E : system.Execution) (n i : Nat) : Prop :=
  .handleClose ∈ (E.state n).logOf i
    ∨ (∃ k revents, (i, revents) ∈ ((E.state n).loops k).active ∧ revents &&& EPOLLHUP ≠ 0 ∧ revents &&& EPOLLIN = 0)
    ∨ .connectEstablished ∈ (E.state n).logOf i ∧ ∃ isInLoopThread, E.label n = .forceClose i isInLoopThread

/--
In a server whose loops go on each connection is established at last, and each one that closes is gone for good at last.
-/
theorem gone_at_last (E : system.Execution) (hrunning : ∀ n, (E.state n).teardown = .running) (hfair : Fair E)
    (n i : Nat)
    : (((E.state n).conns i).isSome = true → ∃ m, n ≤ m ∧ .connectEstablished ∈ (E.state m).logOf i)
        ∧ (Closing E n i → ∃ m, n ≤ m ∧ ∀ m', m ≤ m' → (E.state m').Gone i) := by
  refine ⟨established hrunning hfair i n, fun hclosing => ?_⟩
  have hclosed : ∃ m, n ≤ m ∧ .handleClose ∈ (E.state m).logOf i := by
    obtain hclosed | ⟨k, revents, hactive, hhup, hin⟩ | ⟨hestablished, _, hlabel⟩ := hclosing
    . exact ⟨n, Nat.le_refl n, hclosed⟩
    . exact closed_of_hangUp hrunning hfair i hhup hin n hactive
    . exact closed_of_forceClose hrunning hfair hlabel hestablished
  obtain ⟨m₁, hle₁, hclosed⟩ := hclosed
  obtain ⟨m, hle, hdestroyed⟩ := (removed hrunning hfair i).trans (destroyed hrunning hfair i) m₁ hclosed
  refine ⟨m, Nat.le_trans hle₁ hle, fun m' hle' => ?_⟩
  have hkept : .connectDestroyed ∈ (E.state m').logOf i :=
    E.always_of_step (P := fun s => .connectDestroyed ∈ s.logOf i) hdestroyed
      (fun m _ hmem => (continues (wired_reachable (E.reachable m)) (E.step m)).mem_logOf hmem) hle'
  exact gone_of_destroyed (inv_reachable (E.reachable m') (hrunning m')) hkept

-- a loop without work goes round
def round (k : Nat) : List Label :=
  [.poll k [], .swap k, .endFunctors k]

theorem round_same {l : ServerLoop} (hphase : l.phase = .polling) (hactive : l.active = [])
    (hqueue : queueOf l.loop = []) : ⟨l.loop.swapFunctors, .polling, [], l.todo⟩ = l := by
  obtain ⟨loop, phase, active, todo⟩ := l
  obtain ⟨hfunctors, hpending⟩ := List.append_eq_nil_iff.mp hqueue
  cases loop
  dsimp only at hphase hactive hfunctors hpending
  subst hphase hactive hfunctors hpending
  rfl

theorem run_round (hruns : s.runs k = true) (hphase : (s.loops k).phase = .polling) (hactive : (s.loops k).active = [])
    (htodo : (s.loops k).todo = []) (hqueue : queueOf (s.loops k).loop = []) : system.run s (round k) = some s := by
  have hpending := (List.append_eq_nil_iff.mp hqueue).2
  obtain ⟨polled, hpolled⟩ : ∃ polled, polled =
      { s with loops := Function.update s.loops k { s.loops k with phase := .events, active := [] } } := ⟨_, rfl⟩
  have hpoll : system.step s (.poll k []) = some polled :=
    LTS.guarded_step.mpr ⟨by simp [enabled, hruns, hphase], by rw [hpolled]; rfl⟩
  have hruns₁ : polled.runs k = true := hpolled ▸ hruns
  have hloop₁ : polled.loops k = { s.loops k with phase := .events, active := [] } := by
    rw [hpolled]
    exact Function.update_self ..
  obtain ⟨swapped, hswapped⟩ : ∃ swapped, swapped =
      (polled.setLoop k (polled.loops k).loop.swapFunctors).setPhase k .functors := ⟨_, rfl⟩
  have hswap : system.step polled (.swap k) = some swapped :=
    LTS.guarded_step.mpr ⟨by simp [enabled, hruns₁, hloop₁, htodo], by rw [hswapped]; rfl⟩
  have hruns₂ : swapped.runs k = true := hswapped ▸ hruns₁
  have hloop₂ : swapped.loops k = ⟨(s.loops k).loop.swapFunctors, .functors, [], (s.loops k).todo⟩ := by
    rw [hswapped, swap_eq, hloop₁]
    simp
  have hend : system.step swapped (.endFunctors k) = some (swapped.setPhase k .polling) :=
    LTS.guarded_step.mpr ⟨by simp [enabled, hruns₂, hloop₂, EventLoop.swapFunctors, hpending], rfl⟩
  have hsame : swapped.setPhase k .polling = s := by
    simp only [setPhase, hloop₂, round_same hphase hactive hqueue]
    rw [hswapped, swap_eq, hpolled]
    simp
  simp only [round, LTS.run, hpoll, hswap, hend, Option.bind_some, hsame]

-- epoll reports a hang-up, and the connection goes
def hangUp : List Label :=
  [.newConnection 7 false, .swap 1, .runFunctor 1 [] (.accepted 0), .endFunctors 1, .poll 1 [(1, EPOLLHUP)],
    .handleEvent 1, .callback 1 0 (.accepted 0), .swap 1, .endFunctors 1, .swap 0, .runFunctor 0 [] (.accepted 0),
    .endFunctors 0, .poll 1 [], .swap 1, .runFunctor 1 [] (.accepted 0), .endFunctors 1]

def hungUp : ServerLoops :=
  (system.run (started 1) hangUp).get rfl

theorem run_hangUp : system.run (started 1) hangUp = some hungUp :=
  (Option.some_get _).symm

theorem hangUp_fixed : ∀ k, k < hangUp.length →
    (system.run (started 1) (hangUp.take k)).map (fun s => (s.teardown, s.server.threadPool_.loops_))
      = some (.running, 1) := by
  decide

theorem run_rounds : system.run hungUp (round 0 ++ round 1) = some hungUp := by
  have hbase : system.run hungUp (round 0) = some hungUp :=
    run_round (by decide) (by decide) (by decide) (by decide) (by decide)
  rw [LTS.run_append hbase]
  exact run_round (by decide) (by decide) (by decide) (by decide) (by decide)

def goingRound : system.Execution :=
  .lasso (started_init 1) run_hangUp run_rounds (by decide)

theorem rounds_fixed : ∀ k, k < 6 →
    (system.run hungUp ((round 0 ++ round 1).take k)).map (fun s => (s.teardown, s.server.threadPool_.loops_))
      = some (.running, 1) := by
  decide

theorem goingRound_fixed (n : Nat)
    : (goingRound.state n).teardown = .running ∧ (goingRound.state n).server.threadPool_.loops_ = 1 := by
  rw [← Prod.mk.injEq]
  obtain ⟨k, hlt, _, hstate⟩ | ⟨k, hlt, hstate⟩ :=
    LTS.Execution.lasso_state (started_init 1) run_hangUp run_rounds (by decide) n
  . have hfixed := hangUp_fixed k hlt
    rw [hstate, Option.map_some, Option.some.injEq] at hfixed
    exact hfixed
  . have hfixed := rounds_fixed k hlt
    rw [hstate, Option.map_some, Option.some.injEq] at hfixed
    exact hfixed

theorem goingRound_fair : Fair goingRound := by
  intro n k hruns
  have hk : k = 0 ∨ k = 1 := by
    simp only [runs, (goingRound_fixed n).2, Bool.and_eq_true, decide_eq_true_eq] at hruns
    omega
  have hswap : Label.swap k ∈ round 0 ++ round 1 := by
    obtain rfl | rfl := hk <;> simp [round]
  obtain ⟨m, hle, hlabel⟩ := LTS.Execution.lasso_recurs (started_init 1) run_hangUp run_rounds (by decide) hswap n
  have hlabel : goingRound.label m = .swap k := hlabel
  exact ⟨m, hle, by rw [hlabel]; exact decide_eq_true rfl⟩

theorem gone_at_last_goingRound
    : ∃ m, 5 ≤ m ∧ ∀ m', m ≤ m' → (goingRound.state m').Gone 1 := by
  refine (gone_at_last goingRound (fun n => (goingRound_fixed n).1) goingRound_fair 5 1).2 (.inr (.inl ?_))
  have hreported : ((goingRound.state 5).loops 1).active = [(1, EPOLLHUP)] := rfl
  exact ⟨1, EPOLLHUP, by simp [hreported], by decide, by decide⟩

end ServerLoops

end TcpServer

end MyMuduo
