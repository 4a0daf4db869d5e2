import MyMuduo.TcpServer.Stages

/-!
This module contains what the functions of one connection leave of the other connections, of the loops and of
the server.
-/

namespace MyMuduo

namespace TcpServer

open TcpConnection (Task Notice Functor)

variable {l l' l'' : EventLoop ServerTask} {cbs cbs' : List ServerTask} {i j : Nat}

/--
The functors `cbs` have been queued.
-/
structure Appended (l l' : EventLoop ServerTask) (cbs : List ServerTask) : Prop where
  functors : l'.functors = l.functors
  pendingFunctors : l'.pendingFunctors = l.pendingFunctors ++ cbs

theorem Appended.of_eq (hfunctors : l'.functors = l.functors) (hpending : l'.pendingFunctors = l.pendingFunctors)
    : Appended l l' [] :=
  ⟨hfunctors, by rw [hpending, List.append_nil]⟩

theorem Appended.trans (h₁ : Appended l l' cbs) (h₂ : Appended l' l'' cbs') : Appended l l'' (cbs ++ cbs') := by
  refine ⟨h₂.functors.trans h₁.functors, ?_⟩
  rw [h₂.pendingFunctors, h₁.pendingFunctors, List.append_assoc]

theorem appended_queueInLoop (l : EventLoop ServerTask) (isInLoopThread : Bool) (cb : ServerTask)
    : Appended l (l.queueInLoop isInLoopThread cb) [cb] :=
  ⟨EventLoop.functors_queueInLoop .., EventLoop.pendingFunctors_queueInLoop ..⟩

theorem Appended.queueOf (h : Appended l l' cbs) : queueOf l' = queueOf l ++ cbs := by
  simp only [TcpServer.queueOf, h.functors, h.pendingFunctors, List.append_assoc]

theorem Appended.tasksOf (h : Appended l l' cbs)
    : tasksOf i l' = tasksOf i l ++ cbs.filterMap (ServerTask.task? i) := by
  simp only [TcpServer.tasksOf, h.queueOf, List.filterMap_append]

theorem Appended.removalsOf (h : Appended l l' cbs)
    : removalsOf i l' = removalsOf i l + cbs.count (.removeConnectionInLoop i) := by
  simp only [TcpServer.removalsOf, h.queueOf, List.count_append]

@[simp]
theorem task?_conn (i : Nat) (task : Task) : ServerTask.task? i (.conn i task) = some task := by
  simp [ServerTask.task?]

@[simp]
theorem task?_conn_of_ne (hne : j ≠ i) (task : Task) : ServerTask.task? j (.conn i task) = none := by
  simp [ServerTask.task?, hne.symm]

@[simp]
theorem task?_removeConnectionInLoop (i j : Nat) : ServerTask.task? i (.removeConnectionInLoop j) = none :=
  rfl

@[simp]
theorem filterMap_task?_map (i : Nat) (tasks : List Task)
    : (tasks.map (ServerTask.conn i)).filterMap (ServerTask.task? i) = tasks := by
  simp [List.filterMap_map]

@[simp]
theorem count_removal_map (i j : Nat) (tasks : List Task)
    : (tasks.map (ServerTask.conn i)).count (.removeConnectionInLoop j) = 0 := by
  rw [List.count_eq_zero]
  simp

theorem mem_tasksOf {task : Task} : task ∈ tasksOf i l ↔ .conn i task ∈ queueOf l := by
  simp only [tasksOf, List.mem_filterMap]
  constructor
  . rintro ⟨cb, hmem, htask⟩
    cases cb with
    | conn j task' =>
      simp only [ServerTask.task?] at htask
      split at htask
      . next heq =>
        subst heq
        simp only [Option.some.injEq] at htask
        exact htask ▸ hmem
      . cases htask
    | removeConnectionInLoop => cases htask
  . exact fun hmem => ⟨_, hmem, task?_conn i task⟩

theorem erase_erase (s : TcpServer) (connName : List Char) : (s.erase connName).erase connName = s.erase connName := by
  simp [erase, List.filter_filter]

namespace ServerLoops

variable {s s' s₁ : ServerLoops} {x x₁ : Accepted} {k m : Nat}

@[simp]
theorem loop_setLoop (s : ServerLoops) (k m : Nat) (l : EventLoop ServerTask)
    : ((s.setLoop k l).loops m).loop = if m = k then l else (s.loops m).loop := by
  simp only [setLoop, Function.update_apply]
  split <;> rfl

@[simp]
theorem phase_setLoop (s : ServerLoops) (k m : Nat) (l : EventLoop ServerTask)
    : ((s.setLoop k l).loops m).phase = (s.loops m).phase := by
  simp only [setLoop, Function.update_apply]
  split
  . next heq => rw [heq]
  . rfl

@[simp]
theorem active_setLoop (s : ServerLoops) (k m : Nat) (l : EventLoop ServerTask)
    : ((s.setLoop k l).loops m).active = (s.loops m).active := by
  simp only [setLoop, Function.update_apply]
  split
  . next heq => rw [heq]
  . rfl

@[simp]
theorem todo_setLoop (s : ServerLoops) (k m : Nat) (l : EventLoop ServerTask)
    : ((s.setLoop k l).loops m).todo = (s.loops m).todo := by
  simp only [setLoop, Function.update_apply]
  split
  . next heq => rw [heq]
  . rfl

@[simp]
theorem conns_setConn (s : ServerLoops) (i j : Nat) (x : Accepted)
    : (s.setConn i x).conns j = if j = i then some x else s.conns j :=
  Function.update_apply ..

/--
What a function of the connection `i` has done. Functors are queued for the connection on its own loop, and
`removeConnectionInLoop` on the base loop.
-/
structure Acted (i : Nat) (x : Accepted) (s s' : ServerLoops) : Prop where
  conns : ∀ j, j ≠ i → s'.conns j = s.conns j
  conn : ∃ x', s'.conns i = some x' ∧ x'.name = x.name ∧ x'.loop_ = x.loop_
    ∧ x'.conn.channel.fd = x.conn.channel.fd ∧ x'.conn.channel.addr = x.conn.channel.addr
    ∧ (.connectDestroyed ∈ x.log → .connectDestroyed ∈ x'.log)
  server : s'.server = s.server ∨ s'.server = s.server.erase x.name
  queued : ∀ m, ∃ cbs, Appended (s.loops m).loop (s'.loops m).loop cbs
    ∧ ∀ cb ∈ cbs, (∃ task, cb = .conn i task) ∧ m = x.loop_ ∨ cb = .removeConnectionInLoop i ∧ m = 0
  phase : ∀ m, (s'.loops m).phase = (s.loops m).phase
  active : ∀ m, (s'.loops m).active = (s.loops m).active
  todo : ∀ m, (s'.loops m).todo = (s.loops m).todo
  others : ∀ m, m ≠ x.loop_ → (s'.loops m).loop.poller = (s.loops m).loop.poller
  poller : (s.loops x.loop_).loop.poller.Confined (s'.loops x.loop_).loop.poller x.conn.channel.fd
    x.conn.channel.addr
  teardown : s'.teardown = s.teardown

theorem Acted.trans (h₁ : Acted i x s s₁) (hx₁ : s₁.conns i = some x₁) (h₂ : Acted i x₁ s₁ s') : Acted i x s s' := by
  obtain ⟨x₁', hconn₁, hname₁, hloop₁, hfd₁, haddr₁, hlog₁⟩ := h₁.conn
  rw [hx₁, Option.some.injEq] at hconn₁
  subst hconn₁
  obtain ⟨x', hconn, hname, hloop, hfd, haddr, hlog⟩ := h₂.conn
  refine ⟨fun j hne => (h₂.conns j hne).trans (h₁.conns j hne), ?_, ?_, ?_,
    fun m => (h₂.phase m).trans (h₁.phase m), fun m => (h₂.active m).trans (h₁.active m),
    fun m => (h₂.todo m).trans (h₁.todo m), ?_, ?_, h₂.teardown.trans h₁.teardown⟩
  . exact ⟨x', hconn, hname.trans hname₁, hloop.trans hloop₁, hfd.trans hfd₁, haddr.trans haddr₁,
      fun hmem => hlog (hlog₁ hmem)⟩
  . have hserver := h₂.server
    rw [hname₁] at hserver
    obtain heq₁ | heq₁ := h₁.server <;> obtain heq | heq := hserver
    . exact .inl (heq.trans heq₁)
    . exact .inr (heq₁ ▸ heq)
    . exact .inr (heq.trans heq₁)
    . rw [heq₁, erase_erase] at heq
      exact .inr heq
  . intro m
    obtain ⟨cbs₁, happended₁, hcbs₁⟩ := h₁.queued m
    obtain ⟨cbs, happended, hcbs⟩ := h₂.queued m
    rw [hloop₁] at hcbs
    refine ⟨cbs₁ ++ cbs, happended₁.trans happended, ?_⟩
    intro cb hmem
    obtain hmem | hmem := List.mem_append.mp hmem
    . exact hcbs₁ cb hmem
    . exact hcbs cb hmem
  . intro m hne
    exact (h₂.others m (hloop₁ ▸ hne)).trans (h₁.others m hne)
  . have hpoller := h₂.poller
    rw [hloop₁, hfd₁, haddr₁] at hpoller
    exact h₁.poller.trans hpoller

-- a step that only queues functors and changes the record of the connection and the map
theorem Acted.of_poller (log : List LifeEvent) (hconns : ∀ j, j ≠ i → s'.conns j = s.conns j)
    (hconn : s'.conns i = some { x with log := x.log ++ log })
    (hserver : s'.server = s.server ∨ s'.server = s.server.erase x.name)
    (hloops : ∀ m, (s'.loops m).phase = (s.loops m).phase ∧ (s'.loops m).active = (s.loops m).active
      ∧ (s'.loops m).todo = (s.loops m).todo ∧ (s'.loops m).loop.poller = (s.loops m).loop.poller)
    (hqueued : ∀ m, ∃ cbs, Appended (s.loops m).loop (s'.loops m).loop cbs
      ∧ ∀ cb ∈ cbs, (∃ task, cb = .conn i task) ∧ m = x.loop_ ∨ cb = .removeConnectionInLoop i ∧ m = 0)
    (hteardown : s'.teardown = s.teardown) : Acted i x s s' := by
  refine ⟨hconns, ⟨_, hconn, rfl, rfl, rfl, rfl, List.mem_append_left _⟩, hserver, hqueued, fun m => (hloops m).1,
    fun m => (hloops m).2.1, fun m => (hloops m).2.2.1, fun m _ => (hloops m).2.2.2, ?_, hteardown⟩
  rw [(hloops x.loop_).2.2.2]
  exact .refl _ _ _

theorem acted_put {log : List LifeEvent} {c' : TcpConnection}
    {l' : EventLoop ServerTask} (hconfined : TcpConnection.Confined x.conn (s.loops x.loop_).loop c' l')
    {tasks : List Task} (happended : Appended (s.loops x.loop_).loop l' (tasks.map (.conn i)))
    : Acted i x s (s.put i { x with log := x.log ++ log } c' l') := by
  refine ⟨?_, ?_, .inl rfl, ?_, ?_, ?_, ?_, ?_, ?_, rfl⟩
  . intro j hne
    simp [put, setLoop, hne]
  . refine ⟨{ x with log := x.log ++ log, conn := c' }, by simp [put, setLoop], rfl, rfl, hconfined.fd, hconfined.addr,
      List.mem_append_left _⟩
  . intro m
    by_cases heq : m = x.loop_
    . subst heq
      refine ⟨tasks.map (.conn i), by simpa [put, setConn] using happended, ?_⟩
      intro cb hmem
      obtain ⟨task, _, rfl⟩ := List.mem_map.mp hmem
      exact .inl ⟨⟨task, rfl⟩, rfl⟩
    . refine ⟨[], .of_eq ?_ ?_, by simp⟩ <;> simp [put, setConn, heq]
  . simp [put, setConn]
  . simp [put, setConn]
  . simp [put, setConn]
  . intro m hne
    simp [put, setConn, hne]
  . simpa [put, setConn] using hconfined.poller

-- the same for a call of the user
theorem acted_call {c' : TcpConnection} {l' : EventLoop ServerTask}
    (hconfined : TcpConnection.Confined x.conn (s.loops x.loop_).loop c' l') {tasks : List Task}
    (happended : Appended (s.loops x.loop_).loop l' (tasks.map (.conn i))) : Acted i x s (s.put i x c' l') := by
  have hput : Acted i x s (s.put i { x with log := x.log ++ [] } c' l') := acted_put hconfined happended
  rwa [List.append_nil] at hput

theorem acted_queueInLoop (hx : s.conns i = some x) (thread : Nat) {cb : ServerTask}
    (hcb : (∃ task, cb = .conn i task) ∧ k = x.loop_ ∨ cb = .removeConnectionInLoop i ∧ k = 0)
    : Acted i x s (s.queueInLoop thread k cb) := by
  apply Acted.of_poller []
  . exact fun _ _ => rfl
  . rw [List.append_nil]
    exact hx
  . exact .inl rfl
  . intro m
    simp only [queueInLoop, phase_setLoop, active_setLoop, todo_setLoop, loop_setLoop, true_and]
    split
    . next heq => rw [heq, EventLoop.poller_queueInLoop]
    . rfl
  . intro m
    by_cases heq : m = k
    . subst heq
      refine ⟨[cb], by simpa [queueInLoop] using appended_queueInLoop .., ?_⟩
      intro cb' hmem
      rw [List.mem_singleton.mp hmem]
      exact hcb
    . refine ⟨[], .of_eq ?_ ?_, by simp⟩ <;> simp [queueInLoop, heq]
  . rfl

theorem acted_log (s : ServerLoops) (i : Nat) (x : Accepted) (log : List LifeEvent)
    : Acted i x s (s.setConn i { x with log := x.log ++ log }) := by
  apply Acted.of_poller log
  . intro j hne
    simp [hne]
  . simp
  . exact .inl rfl
  . exact fun _ => ⟨rfl, rfl, rfl, rfl⟩
  . exact fun _ => ⟨[], .of_eq rfl rfl, by simp⟩
  . rfl

theorem acted_erase (hx : s.conns i = some x) : Acted i x s { s with server := s.server.erase x.name } := by
  apply Acted.of_poller []
  . exact fun _ _ => rfl
  . rw [List.append_nil]
    exact hx
  . exact .inr rfl
  . exact fun _ => ⟨rfl, rfl, rfl, rfl⟩
  . exact fun _ => ⟨[], .of_eq rfl rfl, by simp⟩
  . rfl

theorem acted_useServer (hx : s.conns i = some x) : Acted i x s s.useServer := by
  apply Acted.of_poller []
  . exact fun _ _ => rfl
  . rw [List.append_nil]
    exact hx
  . exact .inl rfl
  . exact fun _ => ⟨rfl, rfl, rfl, rfl⟩
  . exact fun _ => ⟨[], .of_eq rfl rfl, by simp⟩
  . rfl

theorem removeConnectionInLoop_eq (hx : s.conns i = some x)
    : s.removeConnectionInLoop i
        = ({ s.useServer with server := s.server.erase x.name }.setConn i
            { x with log := x.log ++ [LifeEvent.removeConnectionInLoop] }).queueInLoop 0 x.loop_
            (.conn i .connectDestroyed) := by
  simp only [removeConnectionInLoop, hx]

theorem acted_removeConnectionInLoop (hx : s.conns i = some x) : Acted i x s (s.removeConnectionInLoop i) := by
  rw [removeConnectionInLoop_eq hx]
  have herased : Acted i x s.useServer { s.useServer with server := s.server.erase x.name } := acted_erase hx
  have hlogged := ((acted_useServer hx).trans hx herased).trans hx (acted_log _ i x [.removeConnectionInLoop])
  have hconn : ({ s.useServer with server := s.server.erase x.name }.setConn i
      { x with log := x.log ++ [LifeEvent.removeConnectionInLoop] }).conns i =
        some { x with log := x.log ++ [LifeEvent.removeConnectionInLoop] } := by
    simp
  exact hlogged.trans hconn (acted_queueInLoop hconn 0 (.inl ⟨⟨_, rfl⟩, rfl⟩))

theorem acted_removeConnection (hx : s.conns i = some x) (thread : Nat)
    : Acted i x s (s.removeConnection thread i) := by
  have hused : s.useServer.conns i = some x := hx
  unfold removeConnection
  split
  . exact (acted_useServer hx).trans hused (acted_removeConnectionInLoop hused)
  . exact (acted_useServer hx).trans hused (acted_queueInLoop hused thread (.inr ⟨rfl, rfl⟩))

theorem conns_put (s : ServerLoops) (i : Nat) (x : Accepted) (c' : TcpConnection) (l' : EventLoop ServerTask)
    : (s.put i x c' l').conns i = some { x with conn := c' } := by
  simp [put, setLoop]

theorem acted_finish {events : List LifeEvent} {c' : TcpConnection} {l' : EventLoop ServerTask}
    {notices : List Notice} (hconfined : TcpConnection.Confined x.conn (s.loops x.loop_).loop c' l')
    {tasks : List Task} (happended : Appended (s.loops x.loop_).loop l' (tasks.map (.conn i)))
    : Acted i x s (s.finish i x events (c', l', notices)) := by
  unfold finish
  split
  . rw [List.append_assoc]
    exact (acted_put hconfined happended).trans (conns_put ..) (acted_removeConnection (conns_put ..) _)
  . exact acted_put hconfined happended

/-
What the loops and the server know of the connection afterwards.
-/

theorem view_put (log : List LifeEvent) (c' : TcpConnection) {l' : EventLoop ServerTask} {tasks : List Task}
    (happended : Appended (s.loops x.loop_).loop l' (tasks.map (.conn i)))
    : (s.put i { x with log := log } c' l').view i { x with log := log, conn := c' }
        = { s.view i x with
              entry := l'.poller.epoll c'.channel.fd
              tasks := (s.view i x).tasks ++ tasks } := by
  apply View.ext
  . simp [view, put]
  . simp [view, put, happended.tasksOf]
  . simp only [view, put, loop_setLoop]
    split
    . next heq => rw [happended.removalsOf, count_removal_map, Nat.add_zero, heq]
    . rfl
  . simp [view, put, setConn]
  . simp [view, put, setConn]
  . rfl

theorem view_queue_conn (s : ServerLoops) (i : Nat) (x : Accepted) (thread : Nat) (task : Task)
    : (s.queueInLoop thread x.loop_ (.conn i task)).view i x
        = { s.view i x with tasks := (s.view i x).tasks ++ [task] } := by
  have happended := appended_queueInLoop (s.loops x.loop_).loop (thread = x.loop_) (.conn i task)
  apply View.ext
  . simp [view, queueInLoop]
  . simp [view, queueInLoop, happended.tasksOf]
  . simp only [view, queueInLoop, loop_setLoop]
    split
    . next heq => simp [happended.removalsOf, heq]
    . rfl
  . simp [view, queueInLoop]
  . simp [view, queueInLoop]
  . rfl

theorem view_queue_removal (s : ServerLoops) (i : Nat) (x : Accepted) (thread : Nat)
    : (s.queueInLoop thread 0 (.removeConnectionInLoop i)).view i x
        = { s.view i x with removals := (s.view i x).removals + 1 } := by
  have happended := appended_queueInLoop (s.loops 0).loop (thread = 0) (.removeConnectionInLoop i)
  apply View.ext
  . simp only [view, queueInLoop, loop_setLoop]
    split
    . next heq => rw [heq, EventLoop.poller_queueInLoop]
    . rfl
  . simp only [view, queueInLoop, loop_setLoop]
    split
    . next heq => simp [happended.tasksOf, heq]
    . rfl
  . simp [view, queueInLoop, happended.removalsOf]
  . simp [view, queueInLoop]
  . simp [view, queueInLoop]
  . rfl

theorem not_contains_erase (s : TcpServer) (connName : List Char) (i : Nat)
    : (s.erase connName).connections_.contains (connName, i) = false := by
  simp [erase]

theorem view_removeConnectionInLoop (hx : s.conns i = some x)
    : (s.removeConnectionInLoop i).view i { x with log := x.log ++ [.removeConnectionInLoop] }
        = { s.view i x with tasks := (s.view i x).tasks ++ [.connectDestroyed], inMap := false } := by
  rw [removeConnectionInLoop_eq hx]
  have hqueued := view_queue_conn ({ s.useServer with server := s.server.erase x.name }.setConn i
    { x with log := x.log ++ [LifeEvent.removeConnectionInLoop] }) i
    { x with log := x.log ++ [LifeEvent.removeConnectionInLoop] } 0 .connectDestroyed
  refine hqueued.trans ?_
  simp only [view, setConn, useServer, not_contains_erase]

end ServerLoops

end TcpServer

end MyMuduo
