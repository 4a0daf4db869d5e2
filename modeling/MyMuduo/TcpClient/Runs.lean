import MyMuduo.TcpClient.Invariant

/-!
This module contains what a function of one connection does to the client: the handlers of its channel, its
functors, and the calls of the user on it.
-/

namespace MyMuduo

namespace TcpClient

open TcpConnection (Task Notice Functor Quiet Through)

namespace ClientLoop

variable {s s' : ClientLoop} {i j : Nat} {x x' y : Made}

/--
The loop thread has taken what a function of the connection `i` runs for.
-/
structure Taken (s s₁ : ClientLoop) (i : Nat) : Prop where
  conns : s₁.conns = s.conns
  client : s₁.client = s.client
  poller : s₁.loop.poller = s.loop.poller
  active : s₁.active = s.active
  todo : s₁.todo.Sublist s.todo
  todoOthers : s.active ≠ i → s₁.todo = s.todo
  handler : s₁.handler = none
  handlerOthers : ∀ j, j ≠ i → s.handler.filter (·.concerns j) = none
  destroys : ∀ j, j ≠ i →
    (queueOf s₁.loop).count (.conn j .connectDestroyed) = (queueOf s.loop).count (.conn j .connectDestroyed)
  tasks : ∀ cb ∈ queueOf s₁.loop, cb ∈ queueOf s.loop
  kept : ∀ cb ∈ queueOf s.loop, (∀ task, cb ≠ .conn i task) → cb ∈ queueOf s₁.loop

variable {s₁ : ClientLoop} {r : TcpConnection × EventLoop ClientTask × List Notice} {events : List LifeEvent}

theorem finish_of_not_close (hclose : .closeCallback ∉ r.2.2)
    : s.finish i x events r = s.put i { x with log := x.log ++ events } r.1 r.2.1 := by
  rw [finish, if_neg]
  rwa [List.contains_iff_mem]

theorem finish_of_close (hclose : .closeCallback ∈ r.2.2)
    : s.finish i x events r =
        { s.put i { x with log := x.log ++ events ++ [.handleClose] } r.1 r.2.1 with
            handler := some (.closeCallback i) } := by
  rw [finish, if_pos]
  rwa [List.contains_iff_mem]

-- the functors of a connection that its functions queue
def Queues (i : Nat) (l l' : EventLoop ClientTask) : Prop :=
  ∃ tasks : List Task, queueOf l' = queueOf l ++ tasks.map (.conn i)
    ∧ .connectEstablished ∉ tasks ∧ .connectDestroyed ∉ tasks

theorem Queues.destroys {l l' : EventLoop ClientTask} (h : Queues i l l') (j : Nat)
    : (queueOf l').count (.conn j .connectDestroyed) = (queueOf l).count (.conn j .connectDestroyed) := by
  obtain ⟨tasks, heq, _, hdestroy⟩ := h
  rw [heq, List.count_append, Nat.add_eq_left, List.count_eq_zero]
  intro hmem
  obtain ⟨task, htask, heq⟩ := List.mem_map.mp hmem
  simp only [ClientTask.conn.injEq] at heq
  exact hdestroy (heq.2 ▸ htask)

theorem Queues.tasks {l l' : EventLoop ClientTask} (h : Queues i l l') {cb : ClientTask} (hmem : cb ∈ queueOf l')
    : cb ∈ queueOf l ∨ ∃ task, cb = .conn i task ∧ task ≠ .connectEstablished := by
  obtain ⟨tasks, heq, hopen, _⟩ := h
  rw [heq, List.mem_append] at hmem
  obtain hold | hnew := hmem
  . exact .inl hold
  . obtain ⟨task, htask, rfl⟩ := List.mem_map.mp hnew
    exact .inr ⟨task, rfl, fun heq => hopen (heq ▸ htask)⟩

theorem Queues.kept {l l' : EventLoop ClientTask} (h : Queues i l l') {cb : ClientTask} (hmem : cb ∈ queueOf l)
    : cb ∈ queueOf l' := by
  obtain ⟨tasks, heq, _⟩ := h
  rw [heq]
  exact List.mem_append_left _ hmem

theorem queues_own {l l' : EventLoop ClientTask} (hfunctors : l'.functors = l.functors) (fs : List Functor)
    (hpending : l'.pendingFunctors = l.pendingFunctors ++ fs.map fun f => ClientTask.conn i (.own f))
    : Queues i l l' := by
  refine ⟨fs.map .own, ?_, by simp, by simp⟩
  simp only [queueOf, hfunctors, hpending, List.append_assoc, List.map_map]
  rfl

theorem queues_nil {l l' : EventLoop ClientTask} (hfunctors : l'.functors = l.functors)
    (hpending : l'.pendingFunctors = l.pendingFunctors) : Queues i l l' :=
  ⟨[], by simp [queueOf, hfunctors, hpending], by simp, by simp⟩

theorem Taken.acts_finish (h : Taken s s₁ i) (events : List LifeEvent) (hthrough : Through x.conn s₁.loop r.1 r.2.1)
    (hqueues : Queues i s₁.loop r.2.1)
    : ∃ log, Acts s (s₁.finish i x events r) i x { x with log := log, conn := r.1 } := by
  have hput : ∀ log handler, (handler = none ∨ handler = some (.closeCallback i)) →
      Acts s { s₁.put i { x with log := log } r.1 r.2.1 with handler := handler } i x
        { x with log := log, conn := r.1 } := by
    intro log handler hhandler
    refine ⟨?_, ⟨hthrough.fd, hthrough.addr, h.poller ▸ hthrough.poller⟩, ?_, ?_, ?_, ?_, ?_, h.active,
      h.todo, h.todoOthers, ?_, ?_⟩
    . simp only [put, setConn, h.conns]
    . simp only [put, setConn, h.client]
    . simp only [put, setConn, h.client]
    . intro j hne
      exact (hqueues.destroys j).trans (h.destroys j hne)
    . exact fun cb hmem => (hqueues.tasks hmem).imp (h.tasks cb) id
    . exact fun cb hmem hother => hqueues.kept (h.kept cb hmem hother)
    . intro j hne
      rw [h.handlerOthers j hne]
      obtain rfl | rfl := hhandler
      . rfl
      . simp [Handler.concerns, hne.symm]
    . intro sockfd heq
      obtain rfl | rfl := hhandler <;> cases heq
  by_cases hclose : .closeCallback ∈ r.2.2
  . rw [finish_of_close hclose]
    exact ⟨_, hput _ _ (.inr rfl)⟩
  . rw [finish_of_not_close hclose]
    exact ⟨_, hput _ _ (.inl h.handler)⟩

/--
The connection that the step closes, if it is open.
-/
def closes (s : ClientLoop) : Label → Option Nat
  | .callback n _ =>
    if s.todo.head? = some .close ∨ s.todo.head? = some .read ∧ n = 0 then some s.active else none
  | .runFunctor .. =>
    match s.loop.functors.head? with
    | some (.conn i .forceCloseInLoop) => some i
    | _ => none
  | _ => none

/--
How far a function of the connection `i` has brought it.
-/
inductive Logged (s s' : ClientLoop) (i : Nat) (x x' : Made) : Prop where
  | same (log : x'.log = x.log) (handler : s'.handler = s.handler)
  | established (before : s.handler = some (.connectEstablished i)) (fresh : x.log = [])
    (log : x'.log = [.connectEstablished]) (handler : s'.handler = none)
  | closed (before : s.handler = none) (up : x.log = [.connectEstablished])
    (log : x'.log = [.connectEstablished, .handleClose]) (handler : s'.handler = some (.closeCallback i))
  | destroyed (before : s.handler = none) (closed : x.log = [.connectEstablished, .handleClose])
    (log : x'.log = [.connectEstablished, .handleClose, .connectDestroyed]) (handler : s'.handler = none)

structure Ran (s s' : ClientLoop) (i : Nat) (x x' : Made) : Prop extends Acts s s' i x x' where
  known : s.conns i = some x
  stage : Stage i x' (s'.view i x')
  detached : x'.detached = x.detached
  client : s'.client = s.client ∨ s'.client = { s.client with connect_ := false }
  logged : Logged s s' i x x'

theorem Wired.ran (h : s.Wired) (hran : Ran s s' i x x') : s'.Wired :=
  h.acts hran.known hran.toActs hran.stage

theorem filter_handler_of_none (h : s.handler = none) (i : Nat) : s.handler.filter (·.concerns i) = none := by
  rw [h]
  rfl

-- a connection that has been made and not established
theorem Wired.handler_of_log_nil (h : s.Wired) (hx : s.conns i = some x) (hlog : x.log = [])
    : s.handler = some (.connectEstablished i) := by
  cases h.stage i x hx with
  | made _ _ _ _ _ _ _ handler =>
    simp only [view, Option.filter_eq_some_iff] at handler
    exact handler.1
  | up log | closing log | closed log | destroyed log => simp [log] at hlog

theorem Wired.log_ne_nil (h : s.Wired) (hx : s.conns i = some x) (huser : s.inUserCode = true) : x.log ≠ [] := by
  intro hlog
  simp [inUserCode, h.handler_of_log_nil hx hlog] at huser

theorem inUserCode_of_none (hidle : s.handler = none) : s.inUserCode = true := by
  simp [inUserCode, hidle]

theorem Taken.ran_quiet (ht : Taken s s₁ i) (h : s.Wired) (hx : s.conns i = some x) (hidle : s.handler = none)
    (hquiet : Quiet (fun f => ClientTask.conn i (.own f)) x.conn s₁.loop r.1 r.2.1 r.2.2)
    (hthrough : Through x.conn s₁.loop r.1 r.2.1)
    (hdestroys : (queueOf s₁.loop).count (.conn i .connectDestroyed)
      = (queueOf s.loop).count (.conn i .connectDestroyed))
    : ∃ x', Ran s (s₁.finish i x [] r) i x x' ∧ (s₁.finish i x [] r).handler = none := by
  obtain ⟨fs, hpending⟩ := hquiet.pending
  have hqueues : Queues i s₁.loop r.2.1 := queues_own hquiet.functors fs hpending
  have hnotClose : .closeCallback ∉ r.2.2 := by
    intro hmem
    cases hquiet.notices _ hmem
  obtain ⟨log, hacts⟩ := ht.acts_finish [] hthrough hqueues
  rw [finish_of_not_close hnotClose, List.append_nil] at hacts ⊢
  have hlog : log = x.log := by
    have hconns := congrFun hacts.conns i
    simp only [put, setConn, Function.update_self, Option.some.injEq, Made.mk.injEq] at hconns
    exact hconns.2.2.symm
  subst hlog
  have hpoller := ht.poller
  refine ⟨_, ⟨hacts, hx, ?_, rfl, .inl ht.client, .same rfl ?_⟩, ht.handler⟩
  . refine (h.stage i x hx).of_quiet (h.log_ne_nil hx (inUserCode_of_none hidle)) hquiet rfl ?_ ?_ ?_ ?_ ⟨?_, ?_, ?_⟩
    . rw [hpoller]
      rfl
    . rw [hpoller]
      rfl
    . simp only [view, put, setConn, hthrough.fd]
    . simp only [view, put, setConn, hthrough.fd]
    . exact (hqueues.destroys i).trans hdestroys
    . intro callback hmem
      simp only [view, put, setConn, ht.active] at hmem ⊢
      split
      . next hactive =>
        rw [if_pos hactive] at hmem
        exact ht.todo.mem hmem
      . next hactive =>
        rw [if_neg hactive] at hmem
        exact hmem
    . simp only [view, put, setConn, ht.handler, hidle]
  . exact ht.handler.trans hidle.symm

theorem Taken.ran_close (ht : Taken s s₁ i) (h : s.Wired) (hx : s.conns i = some x) (hidle : s.handler = none)
    (hup : x.conn.state_ = .kConnected ∨ x.conn.state_ = .kDisconnecting)
    (hclose : x.conn.handleClose s₁.loop = some r) (hthrough : Through x.conn s₁.loop r.1 r.2.1)
    (hdestroys : (queueOf s₁.loop).count (.conn i .connectDestroyed)
      = (queueOf s.loop).count (.conn i .connectDestroyed))
    (htodo : s.active = i → .close ∉ s₁.todo ∧ .read ∉ s₁.todo)
    : ∃ x', Ran s (s₁.finish i x [] r) i x x' := by
  obtain ⟨hfunctors, hpending⟩ := TcpConnection.frame_handleClose hclose
  have hqueues : Queues i s₁.loop r.2.1 := queues_nil hfunctors hpending
  have hnotices : .closeCallback ∈ r.2.2 := by
    simp only [TcpConnection.handleClose, Option.map_eq_some_iff] at hclose
    obtain ⟨_, _, rfl⟩ := hclose
    simp
  obtain ⟨log, hacts⟩ := ht.acts_finish [] hthrough hqueues
  rw [finish_of_close hnotices, List.append_nil] at hacts ⊢
  have hlog : log = x.log ++ [.handleClose] := by
    have hconns := congrFun hacts.conns i
    simp only [put, setConn, Function.update_self, Option.some.injEq, Made.mk.injEq] at hconns
    exact hconns.2.2.symm
  subst hlog
  have hstage := h.stage i x hx
  obtain ⟨hopen, _⟩ := hstage.of_up hup
  have hpoller := ht.poller
  refine ⟨_, hacts, hx, ?_, rfl, .inl ht.client, .closed hidle hopen ?_ rfl⟩
  . refine hstage.handleClose hup ?_ hclose rfl ?_ ?_ ?_ ?_
    . rw [hpoller]
      rfl
    . simp only [view, put, setConn, hthrough.fd]
    . exact (hqueues.destroys i).trans hdestroys
    . simp only [view, put, setConn, ht.active]
      split
      . next hactive => exact htodo hactive
      . simp
    . simp [view, Handler.concerns]
  . simp [hopen]

theorem Taken.ran_destroy (ht : Taken s s₁ i) (h : s.Wired) (hx : s.conns i = some x) (hidle : s.handler = none)
    (hdestroy : x.conn.connectDestroyed s₁.loop = some r) (hthrough : Through x.conn s₁.loop r.1 r.2.1)
    (hdestroys : (queueOf s₁.loop).count (.conn i .connectDestroyed) + 1
      = (queueOf s.loop).count (.conn i .connectDestroyed))
    : ∃ x', Ran s (s₁.finish i x [.connectDestroyed] r) i x x'
        ∧ (s₁.finish i x [.connectDestroyed] r).handler = none := by
  obtain ⟨hfunctors, hpending⟩ := TcpConnection.frame_connectDestroyed hdestroy
  have hqueues : Queues i s₁.loop r.2.1 := queues_nil hfunctors hpending
  have hstage := h.stage i x hx
  have hpoller := ht.poller
  have hwaits : (s.view i x).destroys = (queueOf s.loop).count (.conn i .connectDestroyed) := rfl
  have hdone : Stage i { x with log := x.log ++ [.connectDestroyed], conn := r.1 }
        ((s₁.put i { x with log := x.log ++ [.connectDestroyed] } r.1 r.2.1).view i
          { x with log := x.log ++ [.connectDestroyed], conn := r.1 })
      ∧ r.2.2 = [] := by
    refine hstage.connectDestroyed (by omega) ?_ hdestroy rfl ?_ ?_ ?_ ?_ ?_
    . rw [hpoller]
      rfl
    . simp only [view, put, setConn, hthrough.fd]
    . simp only [view, put, setConn, hthrough.fd]
    . rw [hwaits, ← hdestroys, ← hqueues.destroys i]
      rfl
    . intro callback hmem
      simp only [view, put, setConn, ht.active] at hmem ⊢
      split
      . next hactive =>
        rw [if_pos hactive] at hmem
        exact ht.todo.mem hmem
      . next hactive =>
        rw [if_neg hactive] at hmem
        exact hmem
    . simp only [view, put, setConn, ht.handler, hidle]
  have hnotClose : .closeCallback ∉ r.2.2 := by
    simp [hdone.2]
  obtain ⟨log, hacts⟩ := ht.acts_finish [.connectDestroyed] hthrough hqueues
  rw [finish_of_not_close hnotClose] at hacts ⊢
  have hlog : log = x.log ++ [.connectDestroyed] := by
    have hconns := congrFun hacts.conns i
    simp only [put, setConn, Function.update_self, Option.some.injEq, Made.mk.injEq] at hconns
    exact hconns.2.2.symm
  subst hlog
  have hclosed : x.log = [.connectEstablished, .handleClose] := by
    cases hstage with
    | made _ _ _ _ _ destroys | up _ _ _ _ destroys | closing _ _ destroys | destroyed _ _ _ destroys => omega
    | closed log => exact log
  refine ⟨_, ⟨hacts, hx, hdone.1, rfl, .inl ht.client, .destroyed hidle hclosed ?_ ht.handler⟩, ht.handler⟩
  simp [hclosed]

theorem taken_callback {callback : Callback} {todo : List Callback} (htodo : s.todo = callback :: todo)
    (hidle : s.handler = none) : Taken s { s with todo := todo } s.active := by
  refine ⟨rfl, rfl, rfl, rfl, ?_, fun hne => absurd rfl hne, hidle, fun j _ => filter_handler_of_none hidle j,
    fun _ _ => rfl, fun _ hmem => hmem, fun _ hmem _ => hmem⟩
  rw [htodo]
  exact List.sublist_cons_self _ _

theorem Wired.ran_callback {n : Int} {w : WriteResult} (h : s.Wired) (hidle : s.handler = none)
    (hnext : s.callback n w = some s')
    : ∃ i x x', Ran s s' i x x' ∧ (s'.handler = none ∨ s.closes (.callback n w) = some i) := by
  unfold ClientLoop.callback at hnext
  split at hnext
  . cases hnext
  . next callback todo htodo =>
    simp only [Option.bind_eq_some_iff, Option.map_eq_some_iff] at hnext
    obtain ⟨x, hx, r, hrun, rfl⟩ := hnext
    have ht := taken_callback htodo hidle
    have hthrough := TcpConnection.through_runCallback hrun
    refine ⟨s.active, x, ?_⟩
    obtain hquiet | ⟨hkind, hclose⟩ := TcpConnection.runCallback_cases hrun
    . obtain ⟨x', hran, hhandler⟩ := ht.ran_quiet h hx hidle hquiet hthrough rfl
      exact ⟨x', hran, .inl hhandler⟩
    . have hcallback : callback = .close ∨ callback = .read := hkind.imp id And.left
      have hmem : .close ∈ (s.view s.active x).todo ∨ .read ∈ (s.view s.active x).todo := by
        simp only [view, if_true, htodo, List.mem_cons]
        obtain rfl | rfl := hcallback
        . exact .inl (.inl rfl)
        . exact .inr (.inl rfl)
      have hup := (h.stage _ x hx).up_of_todo hmem
      have hbehind := TcpConnection.Life.not_mem_behind_close (htodo ▸ h.order) (htodo ▸ h.apart) hcallback
      obtain ⟨x', hran⟩ := ht.ran_close h hx hidle hup hclose hthrough rfl fun _ => hbehind
      refine ⟨x', hran, .inr ?_⟩
      obtain rfl | ⟨rfl, rfl⟩ := hkind <;> simp [closes, htodo]

theorem taken_functor {task : Task} {functors : List ClientTask}
    (hfunctors : s.loop.functors = .conn i task :: functors) (hidle : s.handler = none)
    : Taken s { s with loop := { s.loop with functors := functors } } i := by
  refine ⟨rfl, rfl, rfl, rfl, List.Sublist.refl _, fun _ => rfl, hidle, fun j _ => filter_handler_of_none hidle j,
    ?_, ?_, ?_⟩
  . intro j hne
    have hother : ClientTask.conn i task ≠ .conn j .connectDestroyed := by
      simp [hne.symm]
    simp only [queueOf, hfunctors, List.cons_append, List.count_cons_of_ne hother]
  . intro cb hmem
    simp only [queueOf, hfunctors, List.cons_append]
    exact List.mem_cons_of_mem _ hmem
  . intro cb hmem hother
    simp only [queueOf, hfunctors, List.cons_append, List.mem_cons] at hmem
    exact hmem.resolve_left (hother task)

theorem Wired.ran_task {task : Task} {functors : List ClientTask} {message : List UInt8} {w : WriteResult}
    {savedErrno : Nat} (h : s.Wired) (hidle : s.handler = none) (htodo : s.todo = [])
    (hfunctors : s.loop.functors = .conn i task :: functors) (hx : s.conns i = some x)
    (hrun : x.conn.runTask (.conn i) { s.loop with functors := functors } message w task = some r)
    : ∃ x', Ran s (finish { s with loop := { s.loop with functors := functors } } i x (taskEvents task) r) i x x'
        ∧ ((finish { s with loop := { s.loop with functors := functors } } i x (taskEvents task) r).handler = none
          ∨ s.closes (.runFunctor message w savedErrno) = some i) := by
  have hmem : ClientTask.conn i task ∈ queueOf s.loop := by
    simp [queueOf, hfunctors]
  have hopen := (h.tasks i task hmem).1
  have ht := taken_functor hfunctors hidle
  have hthrough := TcpConnection.through_runTask hrun
  have hcount : ∀ task', (queueOf { s.loop with functors := functors }).count (.conn i task')
      + (if task = task' then 1 else 0) = (queueOf s.loop).count (.conn i task') := by
    intro task'
    simp [queueOf, hfunctors, List.count_cons]
  have hdestroys := hcount .connectDestroyed
  obtain ⟨hquiet, hne⟩ | ⟨rfl, hup, hclose⟩ | ⟨rfl, hdestroy⟩ := TcpConnection.runTask_cases hrun hopen
  . have hevents : taskEvents task = [] := by
      cases task with
      | connectDestroyed => exact absurd rfl hne
      | _ => rfl
    rw [hevents]
    rw [if_neg hne] at hdestroys
    obtain ⟨x', hran, hhandler⟩ := ht.ran_quiet h hx hidle hquiet hthrough hdestroys
    exact ⟨x', hran, .inl hhandler⟩
  . have hbehind : .close ∉ s.todo ∧ .read ∉ s.todo := by
      simp [htodo]
    obtain ⟨x', hran⟩ := ht.ran_close h hx hidle hup hclose hthrough (by simpa using hdestroys) fun _ => hbehind
    refine ⟨x', hran, .inr ?_⟩
    simp [closes, hfunctors]
  . obtain ⟨x', hran, hhandler⟩ := ht.ran_destroy h hx hidle hdestroy hthrough (by simpa using hdestroys)
    exact ⟨x', hran, .inl hhandler⟩

theorem Wired.ran_connectEstablished (h : s.Wired) (hnext : s.connectEstablished = some s')
    : ∃ i x x', Ran s s' i x x' ∧ s'.handler = none := by
  unfold ClientLoop.connectEstablished at hnext
  split at hnext
  . next i hhandler =>
    simp only [Option.bind_eq_some_iff, Option.map_eq_some_iff] at hnext
    obtain ⟨x, hx, r, hrun, rfl⟩ := hnext
    have hthrough := TcpConnection.through_runTask hrun
    simp only [TcpConnection.runTask, Option.map_eq_some_iff] at hrun
    obtain ⟨⟨conn, loop⟩, hestablish, rfl⟩ := hrun
    obtain ⟨hfunctors, hpending⟩ := TcpConnection.frame_connectEstablished hestablish
    have hqueues : Queues i s.loop loop := queues_nil hfunctors hpending
    have ht : Taken s { s with handler := none } i := by
      refine ⟨rfl, rfl, rfl, rfl, List.Sublist.refl _, fun _ => rfl, rfl, ?_, fun _ _ => rfl, fun _ hmem => hmem,
        fun _ hmem _ => hmem⟩
      intro j hne
      simp [hhandler, Handler.concerns, hne.symm]
    obtain ⟨log, hacts⟩ := ht.acts_finish [.connectEstablished] hthrough hqueues
    rw [finish_of_not_close (by simp)] at hacts ⊢
    have hlog : log = x.log ++ [.connectEstablished] := by
      have hconns := congrFun hacts.conns i
      simp only [put, setConn, Function.update_self, Option.some.injEq, Made.mk.injEq] at hconns
      exact hconns.2.2.symm
    subst hlog
    have hstage := h.stage i x hx
    have hmade : (s.view i x).handler = some (.connectEstablished i) := by
      simp [view, hhandler, Handler.concerns]
    have hfresh : x.log = [] := by
      cases hstage with
      | made log => exact log
      | up _ _ _ _ _ handler | closed _ _ _ handler | destroyed _ _ _ _ handler => simp [hmade] at handler
      | closing _ _ _ handler => simp [hmade] at handler
    refine ⟨i, x, _, ⟨hacts, hx, ?_, rfl, .inl rfl, .established hhandler hfresh ?_ rfl⟩, rfl⟩
    . have hfd : conn.channel.fd = x.conn.channel.fd := hthrough.fd
      refine hstage.connectEstablished hmade rfl hestablish rfl ?_ ?_ rfl
      . simp only [view, put, setConn, hfd]
      . exact hqueues.destroys i
    . simp [hfresh]
  . cases hnext

-- a call of the user on the connection
theorem acts_put {c' : TcpConnection} {l' : EventLoop ClientTask} (hthrough : Through x.conn s.loop c' l')
    (hqueues : Queues i s.loop l') : Acts s (s.put i x c' l') i x { x with conn := c' } := by
  exact ⟨rfl, hthrough, rfl, rfl, fun j _ => hqueues.destroys j, fun _ hmem => hqueues.tasks hmem,
    fun _ hmem _ => hqueues.kept hmem, rfl, List.Sublist.refl _, fun _ => rfl, fun _ _ => rfl, fun _ => id⟩

theorem Wired.ran_send {message : Addr} {contents : List UInt8} {w : WriteResult} {c' : TcpConnection}
    {l' : EventLoop ClientTask} (h : s.Wired) (huser : s.inUserCode = true) (hx : s.conns i = some x)
    (hsend : x.conn.send (fun f => .conn i (.own f)) true s.loop message contents w = some (c', l'))
    : Ran s (s.put i x c' l') i x { x with conn := c' } := by
  have hquiet := TcpConnection.quiet_send hsend
  have hthrough := TcpConnection.through_send hsend
  obtain ⟨fs, hpending⟩ := hquiet.pending
  have hqueues : Queues i s.loop l' := queues_own hquiet.functors fs hpending
  refine ⟨acts_put hthrough hqueues, hx, ?_, rfl, .inl rfl, .same rfl rfl⟩
  refine (h.stage i x hx).of_quiet (h.log_ne_nil hx huser) hquiet rfl rfl rfl ?_ ?_ ⟨?_, fun _ hmem => hmem, rfl⟩
  . simp only [view, put, setConn, hthrough.fd]
  . simp only [view, put, setConn, hthrough.fd]
  . exact hqueues.destroys i

theorem Wired.ran_forceClose {isInLoopThread : Bool} {c' : TcpConnection} {l' : EventLoop ClientTask} (h : s.Wired)
    (hx : s.conns i = some x) (hclose : x.conn.forceClose (.conn i) isInLoopThread s.loop = (c', l'))
    : Ran s (s.put i x c' l') i x { x with conn := c' } := by
  obtain ⟨_, _, heq, hchannel, hpoller, hfunctors, hup, hnot⟩ :=
    TcpConnection.forceClose_spec (ClientTask.conn i) isInLoopThread x.conn s.loop
  rw [hclose, Prod.mk.injEq] at heq
  obtain ⟨rfl, rfl⟩ := heq
  have hqueues : Queues i s.loop l' := by
    by_cases hstate : x.conn.state_ = .kConnected ∨ x.conn.state_ = .kDisconnecting
    . refine ⟨[.forceCloseInLoop], ?_, by simp, by simp⟩
      simp [queueOf, hfunctors, (hup hstate).1]
    . rw [(hnot hstate).2]
      exact queues_nil rfl rfl
  refine ⟨acts_put (.of_eq hchannel hpoller) hqueues, hx, ?_, rfl, .inl rfl, .same rfl rfl⟩
  have hcall : Stage i { x with conn := c' } (s.view i x) :=
    (h.stage i x hx).of_call rfl hchannel (fun hstate => .inr (hup hstate).2) fun hstate => by rw [(hnot hstate).1]
  refine hcall.of_same ⟨hqueues.destroys i, fun _ hmem => hmem, rfl⟩ ?_ ?_
  . simp only [view, put, setConn, hchannel, hpoller]
  . simp only [view, put, setConn, hchannel, hpoller]

theorem Wired.ran_disconnect {c' : TcpConnection} {l' : EventLoop ClientTask} (h : s.Wired)
    (hx : s.conns i = some x) (hshutdown : x.conn.shutdown (fun f => .conn i (.own f)) true s.loop = (c', l'))
    : Ran s (put { s with client := { s.client with connect_ := false } } i x c' l') i x { x with conn := c' } := by
  obtain ⟨_, _, heq, hchannel, hpoller, hfunctors, ⟨fs, hpending⟩, hstate⟩ :=
    TcpConnection.shutdown_spec (fun f => ClientTask.conn i (.own f)) true x.conn s.loop
  rw [hshutdown, Prod.mk.injEq] at heq
  obtain ⟨rfl, rfl⟩ := heq
  have hqueues : Queues i s.loop l' := queues_own hfunctors fs hpending
  have hacts : Acts s (s.put i x c' l') i x { x with conn := c' } := acts_put (.of_eq hchannel hpoller) hqueues
  refine ⟨⟨hacts.conns, hacts.through, rfl, rfl, hacts.destroys, hacts.tasks, hacts.kept, rfl, hacts.todo,
    hacts.todoOthers, hacts.handler, hacts.coming⟩, hx, ?_, rfl, .inr rfl, .same rfl rfl⟩
  have hcall : Stage i { x with conn := c' } (s.view i x) := by
    refine (h.stage i x hx).of_call rfl hchannel ?_ ?_
    . intro hup
      dsimp only
      rw [hstate]
      split
      . exact .inr rfl
      . exact hup
    . intro hdown
      dsimp only
      rw [hstate, if_neg fun hconnected => hdown (.inl hconnected)]
  refine hcall.of_same ⟨hqueues.destroys i, fun _ hmem => hmem, rfl⟩ ?_ ?_
  . simp only [view, put, setConn, hchannel, hpoller]
  . simp only [view, put, setConn, hchannel, hpoller]

end ClientLoop

end TcpClient

end MyMuduo
