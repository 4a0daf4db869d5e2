import MyMuduo.TcpServer.Wired

/-!
This module contains the life of every connection of a server that exists: in every run it is in one of the
stages, and so nothing happens to it twice or out of order.
-/

namespace MyMuduo

namespace TcpServer

open TcpConnection (Task Notice Functor Quiet)

namespace ServerLoops

def Staged (s : ServerLoops) (i : Nat) : Prop :=
  ∀ x, s.conns i = some x → Stage i x (s.view i x)

variable {s s' : ServerLoops} {i j k : Nat} {x y : Accepted}

/-
What a step leaves of the other connections.
-/

theorem Acted.view_of_ne (h : s.Wired) (hx : s.conns i = some x) (hacted : Acted i x s s') (hne : j ≠ i)
    (hy : s.conns j = some y) : s'.view j y = { s.view j y with entry := (s'.view j y).entry } := by
  have htasks : ∀ m, tasksOf j (s'.loops m).loop = tasksOf j (s.loops m).loop
      ∧ removalsOf j (s'.loops m).loop = removalsOf j (s.loops m).loop := by
    intro m
    obtain ⟨cbs, happended, hcbs⟩ := hacted.queued m
    have hnone : ∀ cb ∈ cbs, ServerTask.task? j cb = none ∧ cb ≠ .removeConnectionInLoop j := by
      intro cb hmem
      obtain ⟨⟨task, rfl⟩, _⟩ | ⟨rfl, _⟩ := hcbs cb hmem
      . simp [hne]
      . simp [hne.symm]
    rw [happended.tasksOf, happended.removalsOf, List.filterMap_eq_nil_iff.mpr fun cb hmem => (hnone cb hmem).1,
      List.append_nil, List.count_eq_zero.mpr fun hmem => (hnone _ hmem).2 rfl]
    exact ⟨rfl, rfl⟩
  have hmap : s'.server.connections_.contains (y.name, j) = s.server.connections_.contains (y.name, j) := by
    obtain heq | heq := hacted.server
    . rw [heq]
    . have hname : y.name ≠ x.name := fun heq => hne (h.name_injective hy hx heq)
      rw [heq]
      simp [erase, hname]
  apply View.ext
  . rfl
  . exact (htasks _).1
  . exact (htasks 0).2
  . simp only [view, hacted.active]
  . simp only [view, hacted.todo]
  . exact hmap

theorem Staged.acted (hstaged : s.Staged j) (h : s.Wired) (hx : s.conns i = some x) (hacted : Acted i x s s')
    (hclosed : .connectDestroyed ∈ x.log → (s'.loops x.loop_).loop.poller = (s.loops x.loop_).loop.poller)
    (hne : j ≠ i) : s'.Staged j := by
  intro y hy'
  have hy := hy'
  rw [hacted.conns j hne] at hy
  have hstage := hstaged y hy
  have hentry : (s'.view j y).entry = (s.view j y).entry
      ∨ .connectDestroyed ∈ y.log ∧ ∀ events, (s'.view j y).entry ≠ some (events, j) := by
    simp only [view]
    by_cases hloop : y.loop_ = x.loop_
    . rw [hloop]
      by_cases hfd : y.conn.channel.fd = x.conn.channel.fd
      . by_cases hx' : .connectDestroyed ∈ x.log
        . rw [hclosed hx']
          exact .inl rfl
        . have hy' : .connectDestroyed ∈ y.log := by
            by_contra hnot
            exact h.fds j i y x hne hy hx hnot hx' hfd
          obtain heq | heq | ⟨events, heq⟩ := hacted.poller.own
          . exact .inl (hfd ▸ heq)
          . right
            rw [hfd, heq]
            simp [hy']
          . right
            rw [hfd, heq, h.addr i x hx]
            simp [hy', hne.symm]
      . exact .inl (hacted.poller.others _ hfd)
    . rw [hacted.others _ hloop]
      exact .inl rfl
  rw [Acted.view_of_ne h hx hacted hne hy]
  obtain heq | ⟨hmem, hentry⟩ := hentry
  . rw [heq]
    exact hstage
  . exact hstage.of_entry hmem hentry

-- a step of the loop `k`
theorem view_loop {l : ServerLoop} (hremovals : removalsOf j l.loop = removalsOf j (s.loops k).loop)
    (hloop : y.loop_ = k)
    : view { s with loops := Function.update s.loops k l } j y
        = { s.view j y with
              entry := l.loop.poller.epoll y.conn.channel.fd
              tasks := tasksOf j l.loop
              reported := l.active.any (·.1 = j)
              todo := todoOf j l.todo } := by
  subst hloop
  apply View.ext
  . simp [view]
  . simp [view]
  . simp only [view, Function.update_apply]
    split
    . next heq => rw [hremovals, heq]
    . rfl
  . simp [view]
  . simp [view]
  . rfl

theorem view_loop_of_ne {l : ServerLoop} (hremovals : removalsOf j l.loop = removalsOf j (s.loops k).loop)
    (hloop : y.loop_ ≠ k) : view { s with loops := Function.update s.loops k l } j y = s.view j y := by
  apply View.ext
  . simp [view, Function.update_of_ne hloop]
  . simp [view, Function.update_of_ne hloop]
  . simp only [view, Function.update_apply]
    split
    . next heq => rw [hremovals, heq]
    . rfl
  . simp [view, Function.update_of_ne hloop]
  . simp [view, Function.update_of_ne hloop]
  . rfl

-- the step changes nothing of the connection
theorem view_of_loop {l : ServerLoop} (hremovals : removalsOf j l.loop = removalsOf j (s.loops k).loop)
    (hpoller : l.loop.poller = (s.loops k).loop.poller) (htasks : tasksOf j l.loop = tasksOf j (s.loops k).loop)
    (hactive : l.active.any (·.1 = j) = (s.loops k).active.any (·.1 = j))
    (htodo : todoOf j l.todo = todoOf j (s.loops k).todo) (y : Accepted)
    : view { s with loops := Function.update s.loops k l } j y = s.view j y := by
  by_cases hloop : y.loop_ = k
  . rw [view_loop hremovals hloop, hpoller, htasks, hactive, htodo]
    subst hloop
    rfl
  . exact view_loop_of_ne hremovals hloop

theorem view_popFunctor_of_ne {cb : ServerTask} {functors : List ServerTask}
    (hfunctors : (s.loops k).loop.functors = cb :: functors) (htask : ServerTask.task? j cb = none)
    (hremoval : cb ≠ .removeConnectionInLoop j) (y : Accepted)
    : (s.setFunctors k functors).view j y = s.view j y := by
  refine view_of_loop (l := { s.loops k with loop := { (s.loops k).loop with functors := functors } }) ?_ rfl ?_ rfl
    rfl y
  . simp [removalsOf, queueOf, hfunctors, List.count_cons_of_ne hremoval]
  . simp [tasksOf, queueOf, hfunctors, htask]

theorem view_popTask {task : Task} {functors : List ServerTask} (hloop : x.loop_ = k)
    (hfunctors : (s.loops k).loop.functors = .conn i task :: functors)
    : s.view i x
        = { (s.setFunctors k functors).view i x with
              tasks := task :: ((s.setFunctors k functors).view i x).tasks } := by
  subst hloop
  apply View.ext
  . simp [view, setFunctors]
  . simp [view, setFunctors, tasksOf, queueOf, hfunctors]
  . simp only [view, setFunctors, loop_setLoop]
    split
    . next heq => simp [removalsOf, queueOf, heq, hfunctors]
    . rfl
  . simp [view, setFunctors]
  . simp [view, setFunctors]
  . rfl

theorem view_popRemoval {functors : List ServerTask}
    (hfunctors : (s.loops 0).loop.functors = .removeConnectionInLoop i :: functors)
    : s.view i x
        = { (s.setFunctors 0 functors).view i x with
              removals :=
                ((s.setFunctors 0 functors).view i x).removals + 1 } := by
  apply View.ext
  . simp only [view, setFunctors, loop_setLoop]
    split
    . next heq => rw [heq]
    . rfl
  . simp only [view, setFunctors, loop_setLoop]
    split
    . next heq => simp [tasksOf, queueOf, heq, hfunctors, List.filterMap_cons]
    . rfl
  . simp [view, setFunctors, removalsOf, queueOf, hfunctors]
  . simp [view, setFunctors]
  . simp [view, setFunctors]
  . rfl

/-
What a step does to the connection that it is about.
-/

theorem staged_put {log : List LifeEvent} {c' : TcpConnection} {l' : EventLoop ServerTask} {tasks : List Task}
    (happended : Appended (s.loops x.loop_).loop l' (tasks.map (.conn i)))
    (hstage : ∀ v', v' = { s.view i x with
      entry := l'.poller.epoll c'.channel.fd, tasks := (s.view i x).tasks ++ tasks } →
      Stage i { x with log := log, conn := c' } v')
    : (s.put i { x with log := log } c' l').Staged i := by
  intro x' hx'
  rw [conns_put, Option.some.injEq] at hx'
  subst hx'
  exact hstage _ (view_put _ _ happended)

theorem finish_of_not_close {events : List LifeEvent} {r : TcpConnection × EventLoop ServerTask × List Notice}
    (h : .closeCallback ∉ r.2.2) : s.finish i x events r = s.put i { x with log := x.log ++ events } r.1 r.2.1 := by
  unfold finish
  rw [if_neg]
  simpa using h

theorem count_map_own (fs : List Functor) {task : Task} (htask : ∀ f, task ≠ .own f)
    : (fs.map Task.own).count task = 0 := by
  rw [List.count_eq_zero, List.mem_map]
  rintro ⟨f, _, rfl⟩
  exact htask f rfl

theorem staged_finish_quiet {events : List LifeEvent} {c' : TcpConnection} {l' : EventLoop ServerTask}
    {notices : List Notice} (hstage : Stage i x (s.view i x)) (hopen : x.conn.state_ ≠ .kConnecting)
    (hquiet : Quiet (ServerTask.conn i ∘ .own) x.conn (s.loops x.loop_).loop c' l' notices)
    (hevents : events.filter (· ≠ .channelEvent) = []) : (s.finish i x events (c', l', notices)).Staged i := by
  obtain ⟨fs, hpending⟩ := hquiet.pending
  have happended : Appended (s.loops x.loop_).loop l' ((fs.map Task.own).map (.conn i)) :=
    ⟨hquiet.functors, by rw [hpending, List.map_map]⟩
  have hnotClose : Notice.closeCallback ∉ notices := by
    intro hmem
    cases hquiet.notices _ hmem
  rw [finish_of_not_close hnotClose]
  apply staged_put happended
  rintro v' rfl
  refine hstage.of_quiet hopen hquiet rfl hevents rfl (by rw [hquiet.channel.fd])
    ⟨?_, ?_, rfl, id, fun _ hmem => hmem, rfl⟩
  . rw [List.count_append, count_map_own fs (by simp), Nat.add_zero]
  . rw [List.count_append, count_map_own fs (by simp), Nat.add_zero]

theorem staged_finish_established {message : List UInt8} {w : WriteResult}
    {r : TcpConnection × EventLoop ServerTask × List Notice} (hlog : x.log = [.newConnection])
    (hindex : x.conn.channel.index = .kNew) (hevents : x.conn.channel.events = 0)
    (hentry : (s.view i x).entry = none) (htasks : (s.view i x).tasks = []) (hremovals : (s.view i x).removals = 0)
    (hinMap : (s.view i x).inMap = true)
    (hrun : x.conn.runTask (.conn i) (s.loops x.loop_).loop message w .connectEstablished = some r)
    : (s.finish i x [.connectEstablished] r).Staged i := by
  obtain ⟨c', l', heq, hstate, hsynced, hregistered, _, hpending, hfunctors⟩ :=
    TcpConnection.connectEstablished_spec (l := (s.loops x.loop_).loop) hindex hevents hentry
  simp only [TcpConnection.runTask, heq, Option.map_some, Option.some.injEq] at hrun
  subst hrun
  rw [finish_of_not_close (by simp)]
  have happended : Appended (s.loops x.loop_).loop l' (([] : List Task).map (.conn i)) :=
    .of_eq hfunctors hpending
  apply staged_put happended
  rintro v' rfl
  refine .established ⟨[], by rw [hlog]; rfl, rfl⟩ (.inl hstate) hsynced hregistered ?_ ?_ hremovals hinMap
  . simp [htasks]
  . simp [htasks]

@[simp]
theorem useServer_view (s : ServerLoops) (i : Nat) (x : Accepted) : s.useServer.view i x = s.view i x :=
  rfl

theorem staged_removeConnectionInLoop (hx : s.conns i = some x)
    (hstage : ∀ v', v' = { s.view i x with tasks := (s.view i x).tasks ++ [.connectDestroyed], inMap := false } →
      Stage i { x with log := x.log ++ [.removeConnectionInLoop] } v')
    : (s.removeConnectionInLoop i).Staged i := by
  intro x' hx'
  have hconn : (s.removeConnectionInLoop i).conns i =
      some { x with log := x.log ++ [LifeEvent.removeConnectionInLoop] } := by
    rw [removeConnectionInLoop_eq hx]
    simp [queueInLoop, setLoop]
  rw [hconn, Option.some.injEq] at hx'
  subst hx'
  exact hstage _ (view_removeConnectionInLoop hx)

/--
`removeConnection` of a connection that has just been closed.
-/
theorem staged_removeConnection (hx : s.conns i = some x) (hlived : x.Lived [.handleClose])
    (hshut : Shut x (s.view i x)) (hentry : (s.view i x).entry = none) (hindex : x.conn.channel.index ≠ .kAdded)
    (hdestroyed : (s.view i x).tasks.count .connectDestroyed = 0) (hremovals : (s.view i x).removals = 0)
    (hinMap : (s.view i x).inMap = true) (thread : Nat) : (s.removeConnection thread i).Staged i := by
  unfold removeConnection
  split
  . have hused : s.useServer.conns i = some x := hx
    apply staged_removeConnectionInLoop hused
    rintro v' rfl
    refine .removed (hlived.happened (by simp) rfl)
      ⟨hshut.state_, hshut.events, hshut.reported, hshut.close, hshut.read, ?_⟩ hentry hindex ?_ hremovals rfl
    . simpa using hshut.established
    . simp [hdestroyed]
  . intro x' hx'
    have hsame : x' = x := by
      have heq : s.conns i = some x' := hx'
      rw [hx, Option.some.injEq] at heq
      exact heq.symm
    subst hsame
    rw [view_queue_removal, useServer_view]
    refine .closed hlived ⟨hshut.state_, hshut.events, hshut.reported, hshut.close, hshut.read, hshut.established⟩
      hentry hindex hdestroyed ?_ hinMap
    rw [hremovals]

theorem staged_finish_close {events : List LifeEvent} {r : TcpConnection × EventLoop ServerTask × List Notice}
    (hstage : Stage i x (s.view i x)) (hup : x.conn.state_ = .kConnected ∨ x.conn.state_ = .kDisconnecting)
    (hreported : (s.view i x).reported = false) (hclose : .close ∉ (s.view i x).todo)
    (hread : .read ∉ (s.view i x).todo) (hrun : x.conn.handleClose (s.loops x.loop_).loop = some r)
    (hevents : events.filter (· ≠ .channelEvent) = []) : (s.finish i x events r).Staged i := by
  obtain ⟨hlived, hsynced, hregistered, hwaiting, hdestroyed, hremovals, hinMap⟩ := hstage.of_up hup
  obtain ⟨c', l', heq, hstate, hsynced', hnone, hfd, _, hentry, hpending, hfunctors⟩ :=
    TcpConnection.handleClose_of_registered hsynced hregistered.1
  rw [hrun, Option.some.injEq] at heq
  subst heq
  have happended : Appended (s.loops x.loop_).loop l' (([] : List Task).map (.conn i)) :=
    .of_eq hfunctors hpending
  have hview := view_put (x.log ++ events ++ [LifeEvent.handleClose]) c' happended
  have htasks : (s.view i x).tasks ++ ([] : List Task) = (s.view i x).tasks := List.append_nil _
  rw [hfd, hentry, htasks] at hview
  simp only [finish, List.contains_cons, beq_self_eq_true, Bool.or_true, Bool.true_or, if_true]
  apply staged_removeConnection (conns_put ..)
  . have hclosed : Accepted.Lived { x with log := x.log ++ events ++ [.handleClose], conn := c' }
        ([] ++ (events ++ [LifeEvent.handleClose]).filter (· ≠ .channelEvent)) :=
      hlived.note (List.append_assoc ..)
    rwa [List.filter_append, hevents] at hclosed
  . rw [hview]
    exact ⟨hstate, hnone, hreported, hclose, hread, hwaiting⟩
  . rw [hview]
  . intro hadded
    have hisSome := hsynced'.mpr hadded
    rw [hfd, hentry] at hisSome
    cases hisSome
  all_goals
    rw [hview]
    assumption

theorem staged_finish_destroyed {message : List UInt8} {w : WriteResult}
    {r : TcpConnection × EventLoop ServerTask × List Notice}
    (hlived : x.Lived [.handleClose, .removeConnectionInLoop]) (hshut : Shut x (s.view i x))
    (hentry : (s.view i x).entry = none) (hindex : x.conn.channel.index ≠ .kAdded)
    (hdestroyed : (s.view i x).tasks.count .connectDestroyed = 0) (hremovals : (s.view i x).removals = 0)
    (hinMap : (s.view i x).inMap = false)
    (hrun : x.conn.runTask (.conn i) (s.loops x.loop_).loop message w .connectDestroyed = some r)
    : (s.finish i x [.connectDestroyed] r).Staged i := by
  have hnotUp : x.conn.state_ ≠ .kConnected := by
    simp [hshut.state_]
  have hsynced : x.conn.channel.Synced (s.loops x.loop_).loop.poller := by
    have habsent : (s.loops x.loop_).loop.poller.epoll x.conn.channel.fd = none := hentry
    simp [Channel.Synced, habsent, hindex]
  obtain ⟨c', l', heq, hstate, hevents, _, hfd, _, _, hepoll, hpending, hfunctors⟩ :=
    TcpConnection.connectDestroyed_spec hsynced fun hup => absurd hup hnotUp
  rw [if_neg hnotUp] at heq hstate hevents
  simp only [TcpConnection.runTask] at hrun
  rw [hrun, Option.some.injEq] at heq
  subst heq
  rw [finish_of_not_close (by simp)]
  have happended : Appended (s.loops x.loop_).loop l' (([] : List Task).map (.conn i)) :=
    .of_eq hfunctors hpending
  apply staged_put happended
  rintro v' rfl
  refine .destroyed (hlived.happened (by simp) rfl)
    ⟨hstate.trans hshut.state_, hevents.trans hshut.events, hshut.reported, hshut.close, hshut.read, ?_⟩
    ?_ ?_ hremovals hinMap
  . simpa using hshut.established
  . simp [hfd, hepoll]
  . simpa using hdestroyed

-- a handler that is not about to open or close the connection does not touch the poller once it is destroyed
theorem poller_finish_quiet {events : List LifeEvent} {c' : TcpConnection} {l' : EventLoop ServerTask}
    {notices : List Notice} {v : View} (hstage : Stage i x v)
    (hquiet : Quiet (ServerTask.conn i ∘ .own) x.conn (s.loops x.loop_).loop c' l' notices)
    (hmem : .connectDestroyed ∈ x.log)
    : ((s.finish i x events (c', l', notices)).loops x.loop_).loop.poller = (s.loops x.loop_).loop.poller := by
  have hshut := hstage.shut_of_destroyed hmem
  have hnotClose : Notice.closeCallback ∉ notices := by
    intro hmem
    cases hquiet.notices _ hmem
  rw [finish_of_not_close hnotClose]
  simp only [put, loop_setLoop, if_true]
  exact (hquiet.closed hshut.state_ (TcpConnection.Life.not_isWriting_of_none hshut.events)).2

/-
The steps.
-/

structure Inv (s : ServerLoops) : Prop extends Wired s where
  staged : ∀ i, s.Staged i

theorem Inv.acted {s₁ : ServerLoops} (hstaged : ∀ j, j ≠ i → s₁.Staged j) (h : s₁.Wired) (hx : s₁.conns i = some x)
    (hacted : Acted i x s₁ s')
    (hclosed : .connectDestroyed ∈ x.log → (s'.loops x.loop_).loop.poller = (s₁.loops x.loop_).loop.poller)
    (hself : s'.Staged i) : s'.Inv := by
  refine ⟨h.acted hx hacted, ?_⟩
  intro j
  by_cases heq : j = i
  . exact heq ▸ hself
  . exact (hstaged j heq).acted h hx hacted hclosed heq

theorem todoOf_map (i : Nat) (callbacks : List Callback)
    : todoOf i (callbacks.map fun callback => (i, callback)) = callbacks := by
  simp [todoOf, List.filterMap_map]

theorem todoOf_map_of_ne (hne : i ≠ j) (callbacks : List Callback)
    : todoOf j (callbacks.map fun callback => (i, callback)) = [] := by
  simp [todoOf, hne]

section

-- the step on the connection `i` that comes next, when the functor or the callback has been taken out
variable (hstaged : ∀ j, j ≠ i → s.Staged j) (h : s.Wired) (hx : s.conns i = some x)

include hstaged h hx

theorem Inv.of_quiet {events : List LifeEvent} {c' : TcpConnection} {l' : EventLoop ServerTask}
    {notices : List Notice} (hacted : Acted i x s (s.finish i x events (c', l', notices)))
    (hstage : Stage i x (s.view i x)) (hopen : x.conn.state_ ≠ .kConnecting)
    (hquiet : Quiet (ServerTask.conn i ∘ .own) x.conn (s.loops x.loop_).loop c' l' notices)
    (hevents : events.filter (· ≠ .channelEvent) = []) : (s.finish i x events (c', l', notices)).Inv :=
  .acted hstaged h hx hacted (poller_finish_quiet hstage hquiet) (staged_finish_quiet hstage hopen hquiet hevents)

theorem Inv.of_close {events : List LifeEvent} {r : TcpConnection × EventLoop ServerTask × List Notice}
    (hacted : Acted i x s (s.finish i x events r)) (hstage : Stage i x (s.view i x))
    (hup : x.conn.state_ = .kConnected ∨ x.conn.state_ = .kDisconnecting)
    (hreported : (s.view i x).reported = false) (hclose : .close ∉ (s.view i x).todo)
    (hread : .read ∉ (s.view i x).todo) (hrun : x.conn.handleClose (s.loops x.loop_).loop = some r)
    (hevents : events.filter (· ≠ .channelEvent) = []) : (s.finish i x events r).Inv := by
  refine .acted hstaged h hx hacted ?_ (staged_finish_close hstage hup hreported hclose hread hrun hevents)
  intro hmem
  have hlived := (hstage.of_up hup).1
  simp [hlived.mem] at hmem

theorem Inv.of_connectEstablished {message : List UInt8} {w : WriteResult}
    {r : TcpConnection × EventLoop ServerTask × List Notice}
    (hstage : Stage i x { s.view i x with tasks := .connectEstablished :: (s.view i x).tasks })
    (hrun : x.conn.runTask (.conn i) (s.loops x.loop_).loop message w .connectEstablished = some r)
    : (s.finish i x [.connectEstablished] r).Inv := by
  cases hstage with
  | accepted log _ index events entry tasks removals _ _ inMap =>
    simp only [List.cons.injEq, true_and] at tasks
    refine .acted hstaged h hx (acted_runTask _ hrun) ?_
      (staged_finish_established log index events entry tasks removals inMap hrun)
    intro hmem
    simp [log] at hmem
  | established _ _ _ _ waiting => simp at waiting
  | closed _ shut | removed _ shut | destroyed _ shut =>
    have hnone := shut.established
    simp at hnone

theorem Inv.of_connectDestroyed {message : List UInt8} {w : WriteResult}
    {r : TcpConnection × EventLoop ServerTask × List Notice}
    (hstage : Stage i x { s.view i x with tasks := .connectDestroyed :: (s.view i x).tasks })
    (hrun : x.conn.runTask (.conn i) (s.loops x.loop_).loop message w .connectDestroyed = some r)
    : (s.finish i x [.connectDestroyed] r).Inv := by
  cases hstage with
  | accepted _ _ _ _ _ tasks => simp at tasks
  | removed lived shut entry index destroyed removals inMap =>
    have hshut : Shut x (s.view i x) := by
      have hnone := shut.established
      simp only [List.count_cons_of_ne (show Task.connectDestroyed ≠ .connectEstablished by simp)] at hnone
      exact ⟨shut.state_, shut.events, shut.reported, shut.close, shut.read, hnone⟩
    have hdestroyed : (s.view i x).tasks.count .connectDestroyed = 0 := by
      simpa using destroyed
    refine .acted hstaged h hx (acted_runTask _ hrun) ?_
      (staged_finish_destroyed lived hshut entry index hdestroyed removals inMap hrun)
    intro hmem
    simp [lived.mem] at hmem
  | established _ _ _ _ _ destroyed | closed _ _ _ _ destroyed | destroyed _ _ _ destroyed => simp at destroyed

theorem Inv.of_removeConnectionInLoop
    (hstage : Stage i x { s.view i x with removals := (s.view i x).removals + 1 })
    : (s.removeConnectionInLoop i).Inv := by
  cases hstage with
  | closed lived shut entry index destroyed removals =>
    refine .acted hstaged h hx (acted_removeConnectionInLoop hx) ?_ (staged_removeConnectionInLoop hx ?_)
    . intro hmem
      simp [lived.mem] at hmem
    . rintro v' rfl
      refine .removed (lived.happened (by simp) rfl)
        ⟨shut.state_, shut.events, shut.reported, shut.close, shut.read, ?_⟩ entry index ?_ ?_ rfl
      . simpa using shut.established
      . simpa using destroyed
      . simpa using removals
  | accepted _ _ _ _ _ _ removals | established _ _ _ _ _ _ removals | removed _ _ _ _ _ removals
  | destroyed _ _ _ _ removals => simp at removals

theorem Inv.of_runTask {message : List UInt8} {w : WriteResult} {task : Task}
    {r : TcpConnection × EventLoop ServerTask × List Notice}
    (hstage : Stage i x { s.view i x with tasks := task :: (s.view i x).tasks })
    (hreported : (s.view i x).reported = false) (htodo : (s.view i x).todo = [])
    (hrun : x.conn.runTask (.conn i) (s.loops x.loop_).loop message w task = some r)
    : (s.finish i x (taskEvents task) r).Inv := by
  by_cases hopen : task = .connectEstablished
  . subst hopen
    exact .of_connectEstablished hstaged h hx hstage hrun
  . by_cases hdestroy : task = .connectDestroyed
    . subst hdestroy
      exact .of_connectDestroyed hstaged h hx hstage hrun
    . have hevents : (taskEvents task).filter (· ≠ .channelEvent) = [] := by
        cases task <;> simp_all [taskEvents]
      have hpopped : Stage i x (s.view i x) := hstage.popTask rfl hopen hdestroy
      have hacted := acted_runTask (taskEvents task) hrun
      obtain ⟨c', l', notices⟩ := r
      obtain ⟨hquiet, _⟩ | ⟨_, hup, hclose⟩ | ⟨heq, _⟩ := TcpConnection.runTask_cases hrun hopen
      . refine .of_quiet hstaged h hx hacted hpopped ?_ hquiet hevents
        intro hstate
        have htasks := (hstage.of_kConnecting hstate).1
        simp only [List.cons.injEq] at htasks
        exact hopen htasks.1
      . exact .of_close hstaged h hx hacted hpopped hup hreported (by simp [htodo]) (by simp [htodo]) hclose hevents
      . exact absurd heq hdestroy

theorem Inv.of_runCallback {n : Int} {w : WriteResult} {callback : Callback}
    {r : TcpConnection × EventLoop ServerTask × List Notice} (hstage : Stage i x (s.view i x))
    (hopen : x.conn.state_ ≠ .kConnecting)
    (hclosing : callback = .close ∨ callback = .read →
      (x.conn.state_ = .kConnected ∨ x.conn.state_ = .kDisconnecting) ∧ (s.view i x).reported = false
        ∧ .close ∉ (s.view i x).todo ∧ .read ∉ (s.view i x).todo)
    (hrun : x.conn.runCallback (.conn i) (s.loops x.loop_).loop n w callback = some r)
    : (s.finish i x [.channelEvent] r).Inv := by
  have hacted := acted_runCallback [.channelEvent] hrun
  obtain ⟨c', l', notices⟩ := r
  obtain hquiet | ⟨hkind, hclose⟩ := TcpConnection.runCallback_cases hrun
  . exact .of_quiet hstaged h hx hacted hstage hopen hquiet rfl
  . obtain ⟨hup, hreported, hnotClose, hnotRead⟩ := hclosing (hkind.imp_right And.left)
    exact .of_close hstaged h hx hacted hstage hup hreported hnotClose hnotRead hclose rfl

end

theorem view_setTodo (s : ServerLoops) (i : Nat) (x : Accepted) (todo : List (Nat × Callback))
    : (s.setTodo x.loop_ todo).view i x = { s.view i x with todo := todoOf i todo } :=
  view_loop (l := { s.loops x.loop_ with todo := todo }) rfl rfl

theorem view_setTodo_of_ne {todo : List (Nat × Callback)} (htodo : todoOf j todo = todoOf j (s.loops k).todo)
    (y : Accepted) : (s.setTodo k todo).view j y = s.view j y :=
  view_of_loop (l := { s.loops k with todo := todo }) rfl rfl rfl rfl htodo y

theorem Inv.callback (h : s.Inv) {n : Int} {w : WriteResult} (hnext : s.callback k n w = some s') : s'.Inv := by
  unfold ServerLoops.callback at hnext
  split at hnext
  . cases hnext
  . next i callback todo htodo =>
    simp only [Option.bind_eq_some_iff, Option.map_eq_some_iff] at hnext
    obtain ⟨x, hx, r, hrun, rfl⟩ := hnext
    have hconn : s.conns i = some x := hx
    have hloop : x.loop_ = k := by
      obtain ⟨x', hconn', hloop⟩ := h.todo k (i, callback) (by simp [htodo])
      rw [hconn, Option.some.injEq] at hconn'
      exact hconn' ▸ hloop
    subst hloop
    have hstage := h.staged i x hconn
    obtain ⟨callbacks, rfl, hbehind, hreported⟩ := (h.handling _).head htodo
    have hview : (s.view i x).todo = callback :: callbacks := by
      simp only [view, htodo]
      exact todoOf_map i (callback :: callbacks)
    have hself := view_setTodo s i x (callbacks.map fun callback => (i, callback))
    rw [todoOf_map] at hself
    refine .of_runCallback ?_ (h.popTodo htodo) hx ?_ ?_ ?_ hrun
    . intro j hne y hy
      rw [view_setTodo_of_ne]
      . exact h.staged j y hy
      . rw [htodo, todoOf_map_of_ne hne.symm]
        exact (todoOf_map_of_ne hne.symm (callback :: callbacks)).symm
    . rw [hself]
      exact hstage.popTodo hview
    . intro hstate
      rw [(hstage.of_kConnecting hstate).2] at hview
      cases hview
    . intro hkind
      rw [hself]
      refine ⟨hstage.up_of_todo ?_, hreported, hbehind hkind⟩
      rw [hview]
      obtain rfl | rfl := hkind
      . exact .inl List.mem_cons_self
      . exact .inr List.mem_cons_self

theorem Inv.runFunctor (h : s.Inv) {message : List UInt8} {w : WriteResult} (hphase : (s.loops k).phase = .functors)
    (hnext : s.runFunctor k message w = some s') : s'.Inv := by
  unfold ServerLoops.runFunctor at hnext
  split at hnext
  . cases hnext
  . next cb functors hfunctors =>
    have hpopped := h.popFunctor hfunctors
    dsimp only at hnext
    split at hnext
    . next i =>
      simp only [Option.some.injEq] at hnext
      subst hnext
      obtain ⟨rfl, x, hx⟩ := h.removal k i (by simp [queueOf, hfunctors])
      have hstage := h.staged i x hx
      rw [view_popRemoval hfunctors] at hstage
      refine .of_removeConnectionInLoop ?_ hpopped hx hstage
      intro j hne y hy
      rw [view_popFunctor_of_ne hfunctors rfl (by simpa using hne.symm)]
      exact h.staged j y hy
    . next i task =>
      simp only [Option.bind_eq_some_iff, Option.map_eq_some_iff] at hnext
      obtain ⟨x, hx, r, hrun, rfl⟩ := hnext
      have hconn : s.conns i = some x := hx
      have hloop : x.loop_ = k := by
        obtain ⟨x', hconn', hloop⟩ := h.conn k i task (by simp [queueOf, hfunctors])
        rw [hconn, Option.some.injEq] at hconn'
        exact hconn' ▸ hloop
      subst hloop
      obtain ⟨hactive, htodo⟩ := (h.handling x.loop_).idle (by simp [hphase])
      have hstage := h.staged i x hconn
      rw [view_popTask rfl hfunctors] at hstage
      refine .of_runTask ?_ hpopped hx hstage ?_ ?_ hrun
      . intro j hne y hy
        rw [view_popFunctor_of_ne hfunctors (task?_conn_of_ne hne task) (by simp)]
        exact h.staged j y hy
      . simp [view, setFunctors, hactive]
      . simp [view, setFunctors, htodo, todoOf]

theorem conns_insertConnection (s : ServerLoops) (x : Accepted)
    : (s.insertConnection x).conns s.server.nextConnId_ = some x := by
  simp [insertConnection]

-- nothing waits for the number that comes next
theorem Wired.view_fresh (h : s.Wired) {x : Accepted} (hloop : x.loop_ = k)
    : s.view s.server.nextConnId_ x
        = { entry := (s.loops k).loop.poller.epoll x.conn.channel.fd
            tasks := []
            removals := 0
            reported := false
            todo := []
            inMap := s.server.connections_.contains (x.name, s.server.nextConnId_) } := by
  subst hloop
  have hfresh : ∀ y, s.conns s.server.nextConnId_ ≠ some y :=
    fun y hy => Nat.lt_irrefl _ (h.fresh _ y hy)
  apply View.ext
  . rfl
  . simp only [view, List.eq_nil_iff_forall_not_mem]
    intro task hmem
    obtain ⟨y, hy, _⟩ := h.conn _ _ task (mem_tasksOf.mp hmem)
    exact hfresh y hy
  . simp only [view, removalsOf, List.count_eq_zero]
    intro hmem
    obtain ⟨_, y, hy⟩ := h.removal _ _ hmem
    exact hfresh y hy
  . simp only [view, List.any_eq_false, decide_eq_true_eq]
    rintro report hmem heq
    obtain ⟨y, hy, _⟩ := h.active _ report hmem
    exact hfresh y (heq ▸ hy)
  . simp only [view, todoOf, List.filterMap_eq_nil_iff]
    intro report hmem
    obtain ⟨y, hy, _⟩ := h.todo _ report hmem
    rw [if_neg]
    rintro heq
    exact hfresh y (heq ▸ hy)
  . rfl

theorem Inv.newConnection (h : s.Inv) {sockfd : Fd} {highWaterMark : Bool}
    (hmax : s.server.nextConnId_ < INT_MAX) (hfree : s.isFree sockfd = true)
    (habsent : (s.loops s.server.threadPool_.getNextLoop.1).loop.poller.epoll sockfd = none)
    (hnext : s.newConnection sockfd highWaterMark = some s') : s'.Inv := by
  have hinserted := h.insertConnection highWaterMark hmax hfree
  have hconn := conns_insertConnection s (s.accepted sockfd highWaterMark)
  have hothers : ∀ j, j ≠ s.server.nextConnId_ →
      (s.insertConnection (s.accepted sockfd highWaterMark)).Staged j := by
    intro j hne y hy
    have hname : y.name ≠ (s.accepted sockfd highWaterMark).name :=
      fun heq => hne (hinserted.name_injective hy hconn heq)
    have hview : (s.insertConnection (s.accepted sockfd highWaterMark)).view j y = s.view j y := by
      apply View.ext <;> try rfl
      simp [view, ServerLoops.insertConnection, setConn, TcpServer.insert, hname]
    rw [hview]
    apply h.staged j
    simpa [ServerLoops.insertConnection, hne] using hy
  have hview : (s.insertConnection (s.accepted sockfd highWaterMark)).view s.server.nextConnId_
      (s.accepted sockfd highWaterMark) = ⟨none, [], 0, false, [], true⟩ := by
    have hfresh := h.view_fresh (x := s.accepted sockfd highWaterMark) rfl
    simp only [View.ext_iff] at hfresh ⊢
    refine ⟨habsent, hfresh.2.1, hfresh.2.2.1, hfresh.2.2.2.1, hfresh.2.2.2.2.1, ?_⟩
    simp [view, ServerLoops.insertConnection, setConn, TcpServer.insert]
  have hstage : Stage s.server.nextConnId_ (s.accepted sockfd highWaterMark)
      ⟨none, [.connectEstablished], 0, false, [], true⟩ :=
    .accepted rfl rfl rfl rfl rfl rfl rfl rfl rfl rfl
  unfold ServerLoops.newConnection at hnext
  dsimp only at hnext
  split at hnext
  . simp only [Option.map_eq_some_iff] at hnext
    obtain ⟨r, hrun, rfl⟩ := hnext
    refine .of_connectEstablished hothers hinserted hconn ?_ hrun
    rw [hview]
    exact hstage
  . simp only [Option.some.injEq] at hnext
    subst hnext
    refine .acted hothers hinserted hconn (acted_queueInLoop hconn 0 (.inl ⟨⟨_, rfl⟩, rfl⟩)) ?_ ?_
    . intro hmem
      simp [accepted] at hmem
    . intro x' hx'
      have hsame : x' = s.accepted sockfd highWaterMark := by
        have heq : (s.insertConnection (s.accepted sockfd highWaterMark)).conns s.server.nextConnId_ = some x' := hx'
        rw [hconn, Option.some.injEq] at heq
        exact heq.symm
      subst hsame
      rw [view_queue_conn, hview]
      exact hstage

theorem Inv.poll (h : s.Inv) {reports : List (Nat × Events)} (hphase : (s.loops k).phase = .polling)
    (hreports : reports.all (s.reports k) = true) (hnodup : (reports.map (·.1)).Nodup)
    : Inv { s with loops := Function.update s.loops k { s.loops k with phase := .events, active := reports } } := by
  refine ⟨h.toWired.poll hphase hreports hnodup, ?_⟩
  intro j y hy
  have hconn : s.conns j = some y := hy
  by_cases hloop : y.loop_ = k
  . have hview := view_loop (s := s) (j := j) (l := { s.loops k with phase := .events, active := reports }) rfl hloop
    subst hloop
    rw [hview]
    apply (h.staged j y hconn).of_reported
    intro hreported
    obtain ⟨report, hmem, heq⟩ := List.any_eq_true.mp hreported
    have heq' : report.1 = j := by simpa using heq
    have hreport := List.all_eq_true.mp hreports report hmem
    simp only [ServerLoops.reports, heq', hconn, Bool.and_eq_true] at hreport
    cases hentry : (s.loops y.loop_).loop.poller.epoll y.conn.channel.fd with
    | none => simp [hentry] at hreport
    | some entry =>
      obtain ⟨events, addr⟩ := entry
      simp only [hentry, Bool.and_eq_true, decide_eq_true_eq, h.addr j y hconn] at hreport
      exact ⟨events, hentry.trans (by rw [hreport.2.1.1])⟩
  . rw [view_loop_of_ne (l := { s.loops k with phase := .events, active := reports }) rfl hloop]
    exact h.staged j y hconn

theorem Inv.handleEvent (h : s.Inv) (htodo : (s.loops k).todo = []) (hnext : s.handleEvent k = some s') : s'.Inv := by
  refine ⟨h.toWired.handleEvent hnext, ?_⟩
  unfold ServerLoops.handleEvent at hnext
  split at hnext
  . cases hnext
  . next i revents active hactive =>
    simp only [Option.map_eq_some_iff] at hnext
    obtain ⟨x, hx, rfl⟩ := hnext
    intro j y hy
    have hconn : s.conns j = some y := hy
    generalize hcallbacks : { x.conn.channel with revents := revents }.handleEventWithGuard = callbacks
    by_cases heq : j = i
    . subst heq
      have hloop : y.loop_ = k := by
        obtain ⟨x', hconn', hloop⟩ := h.active k (j, revents) (by simp [hactive])
        rw [hconn, Option.some.injEq] at hconn'
        exact hconn' ▸ hloop
      have hview := view_loop (s := s) (j := j)
        (l := { s.loops k with active := active, todo := callbacks.map fun callback => (j, callback) }) rfl hloop
      subst hloop
      rw [hview]
      apply (h.staged j y hconn).of_handled
      simp [view, hactive]
    . rw [view_of_loop (l := { s.loops k with active := active, todo := callbacks.map fun callback => (i, callback) })
        rfl rfl rfl]
      . exact h.staged j y hconn
      . simp [hactive, Ne.symm heq]
      . rw [htodo]
        exact todoOf_map_of_ne (Ne.symm heq) callbacks

theorem Inv.swap (h : s.Inv) (hphase : (s.loops k).phase = .events) (hactive : (s.loops k).active = [])
    (htodo : (s.loops k).todo = []) : Inv ((s.setLoop k (s.loops k).loop.swapFunctors).setPhase k .functors) := by
  refine ⟨h.toWired.swap hactive htodo, ?_⟩
  intro j y hy
  have hfunctors := (h.handling k).functors (by simp [hphase])
  rw [swap_eq, view_of_loop
    (l := { s.loops k with loop := (s.loops k).loop.swapFunctors, phase := .functors }) ?_ rfl ?_ rfl rfl]
  . exact h.staged j y hy
  . simp [removalsOf, queueOf, EventLoop.swapFunctors, hfunctors]
  . simp [tasksOf, queueOf, EventLoop.swapFunctors, hfunctors]

theorem Inv.endFunctors (h : s.Inv) (hphase : (s.loops k).phase = .functors)
    (hfunctors : (s.loops k).loop.functors = []) : (s.setPhase k .polling).Inv := by
  refine ⟨h.toWired.endFunctors hphase hfunctors, ?_⟩
  intro j y hy
  rw [setPhase, view_of_loop (l := { s.loops k with phase := .polling }) rfl rfl rfl rfl rfl]
  exact h.staged j y hy

-- a call that does nothing
theorem put_self (hx : s.conns i = some x) : s.put i x x.conn (s.loops x.loop_).loop = s := by
  simp [put, setConn, setLoop, ← hx]

theorem Inv.send (h : s.Inv) (hx : s.conns i = some x) {isInLoopThread : Bool} {message : Addr}
    {contents : List UInt8} {w : WriteResult} {c' : TcpConnection} {l' : EventLoop ServerTask}
    (hsend : x.conn.send (fun f => .conn i (.own f)) isInLoopThread (s.loops x.loop_).loop message contents w
      = some (c', l')) : (s.put i x c' l').Inv := by
  have hput : s.finish i x [] (c', l', []) = s.put i x c' l' := by
    simp [finish]
  by_cases hstate : x.conn.state_ = .kConnected
  . have hquiet : Quiet (ServerTask.conn i ∘ .own) x.conn (s.loops x.loop_).loop c' l' [] :=
      TcpConnection.quiet_send hsend
    have hacted := acted_send hsend
    rw [← hput] at hacted ⊢
    exact .of_quiet (fun j _ => h.staged j) h.toWired hx hacted (h.staged i x hx) (by simp [hstate]) hquiet rfl
  . rw [TcpConnection.send, if_neg hstate, Option.some.injEq, Prod.mk.injEq] at hsend
    obtain ⟨rfl, rfl⟩ := hsend
    rw [put_self hx]
    exact h

-- a call that leaves the connection open, or changes `kConnected` to `kDisconnecting`
theorem Inv.of_disconnecting (h : s.Inv) (hx : s.conns i = some x) {c' : TcpConnection} {l' : EventLoop ServerTask}
    (hacted : Acted i x s (s.put i x c' l')) (hup : x.conn.state_ = .kConnected ∨ x.conn.state_ = .kDisconnecting)
    (hstate : c'.state_ = .kDisconnecting) (hchannel : c'.channel = x.conn.channel)
    (hpoller : l'.poller = (s.loops x.loop_).loop.poller) {tasks : List Task}
    (happended : Appended (s.loops x.loop_).loop l' (tasks.map (.conn i)))
    (htasks : .connectEstablished ∉ tasks ∧ .connectDestroyed ∉ tasks) : (s.put i x c' l').Inv := by
  obtain ⟨hlived, hsynced, hregistered, hwaiting, hdestroyed, hremovals, hinMap⟩ := (h.staged i x hx).of_up hup
  refine .acted (fun j _ => h.staged j) h.toWired hx hacted ?_ ?_
  . intro hmem
    simp [hlived.mem] at hmem
  . apply staged_put happended
    rintro v' rfl
    refine .established hlived (.inr hstate) ?_ (hchannel ▸ hregistered) ?_ ?_ hremovals hinMap
    . rw [hchannel, hpoller]
      exact hsynced
    . rw [List.count_append, hwaiting, List.count_eq_zero.mpr htasks.1]
    . rw [List.count_append, hdestroyed, List.count_eq_zero.mpr htasks.2]

theorem Inv.shutdown (h : s.Inv) (hx : s.conns i = some x) {isInLoopThread : Bool} {c' : TcpConnection}
    {l' : EventLoop ServerTask}
    (hshutdown : x.conn.shutdown (fun f => .conn i (.own f)) isInLoopThread (s.loops x.loop_).loop = (c', l'))
    : (s.put i x c' l').Inv := by
  have hacted := acted_shutdown hshutdown
  obtain ⟨_, _, heq, hchannel, hpoller, hfunctors, ⟨fs, hpending⟩, hstate⟩ :=
    TcpConnection.shutdown_spec (fun f => ServerTask.conn i (.own f)) isInLoopThread x.conn (s.loops x.loop_).loop
  rw [hshutdown, Prod.mk.injEq] at heq
  obtain ⟨rfl, rfl⟩ := heq
  by_cases hup : x.conn.state_ = .kConnected
  . rw [if_pos hup] at hstate
    have happended : Appended (s.loops x.loop_).loop l' ((fs.map Task.own).map (.conn i)) :=
      ⟨hfunctors, by rw [hpending, List.map_map, Function.comp_def]⟩
    exact h.of_disconnecting hx hacted (.inl hup) hstate hchannel hpoller happended (by simp)
  . rw [TcpConnection.shutdown, if_neg hup, Prod.mk.injEq] at hshutdown
    obtain ⟨rfl, rfl⟩ := hshutdown
    rw [put_self hx]
    exact h

theorem Inv.forceClose (h : s.Inv) (hx : s.conns i = some x) {isInLoopThread : Bool} {c' : TcpConnection}
    {l' : EventLoop ServerTask}
    (hforceClose : x.conn.forceClose (.conn i) isInLoopThread (s.loops x.loop_).loop = (c', l'))
    : (s.put i x c' l').Inv := by
  have hacted := acted_forceClose hforceClose
  obtain ⟨_, _, heq, hchannel, hpoller, hfunctors, hopen, hclosed⟩ :=
    TcpConnection.forceClose_spec (ServerTask.conn i) isInLoopThread x.conn (s.loops x.loop_).loop
  rw [hforceClose, Prod.mk.injEq] at heq
  obtain ⟨rfl, rfl⟩ := heq
  by_cases hup : x.conn.state_ = .kConnected ∨ x.conn.state_ = .kDisconnecting
  . obtain ⟨hpending, hstate⟩ := hopen hup
    have happended : Appended (s.loops x.loop_).loop l' ([Task.forceCloseInLoop].map (.conn i)) :=
      ⟨hfunctors, hpending⟩
    exact h.of_disconnecting hx hacted hup hstate hchannel hpoller happended (by simp)
  . obtain ⟨rfl, rfl⟩ := hclosed hup
    rw [put_self hx]
    exact h

theorem Inv.step {a : Label} (h : s.Inv) (hrunning : s'.teardown = .running) (hstep : system.step s a = some s')
    : s'.Inv := by
  obtain ⟨henabled, hnext⟩ := LTS.guarded_step.mp hstep
  cases a with
  | newConnection sockfd highWaterMark =>
    simp only [enabled, Bool.and_eq_true, decide_eq_true_eq, Option.isNone_iff_eq_none] at henabled
    exact h.newConnection henabled.1.1.1.2 henabled.1.1.2 henabled.1.2 hnext
  | poll k reports =>
    simp only [next, Option.some.injEq] at hnext
    subst hnext
    simp only [enabled, Bool.and_eq_true, decide_eq_true_eq] at henabled
    exact h.poll henabled.1.1.2 henabled.1.2 henabled.2
  | handleEvent k =>
    simp only [enabled, Bool.and_eq_true, List.isEmpty_iff] at henabled
    exact h.handleEvent henabled.2 hnext
  | callback k n w => exact h.callback hnext
  | swap k =>
    simp only [next, Option.some.injEq] at hnext
    subst hnext
    simp only [enabled, Bool.and_eq_true, decide_eq_true_eq, List.isEmpty_iff] at henabled
    exact h.swap henabled.1.1.2 henabled.1.2 henabled.2
  | runFunctor k message w =>
    simp only [enabled, Bool.and_eq_true, decide_eq_true_eq] at henabled
    exact h.runFunctor henabled.1.2 hnext
  | endFunctors k =>
    simp only [next, Option.some.injEq] at hnext
    subst hnext
    simp only [enabled, Bool.and_eq_true, decide_eq_true_eq, List.isEmpty_iff] at henabled
    exact h.endFunctors henabled.1.2 henabled.2
  | send i isInLoopThread message contents w =>
    simp only [next, Option.bind_eq_some_iff, Option.map_eq_some_iff] at hnext
    obtain ⟨x, hx, r, hsend, rfl⟩ := hnext
    exact h.send hx hsend
  | shutdown i isInLoopThread =>
    simp only [next, Option.map_eq_some_iff] at hnext
    obtain ⟨x, hx, rfl⟩ := hnext
    exact h.shutdown hx rfl
  | forceClose i isInLoopThread =>
    simp only [next, Option.map_eq_some_iff] at hnext
    obtain ⟨x, hx, rfl⟩ := hnext
    exact h.forceClose hx rfl
  | destroyConnection i =>
    simp only [enabled, Bool.and_eq_true, decide_eq_true_eq, Option.any_eq_true] at henabled
    obtain ⟨hdestroying, x, hx, _⟩ := henabled
    have hteardown := (acted_destroyConnection hx hnext).teardown
    rw [hrunning, hdestroying] at hteardown
    cases hteardown
  | destroy | endDestroy =>
    simp only [next, Option.some.injEq] at hnext
    subst hnext
    cases hrunning

theorem inv_reachable (h : system.Reachable s) (hrunning : s.teardown = .running) : s.Inv := by
  have hinv : s.teardown = .running → s.Inv := by
    apply h.invariant fun s => s.teardown = .running → s.Inv
    . intro s hinit _
      refine ⟨hinit.wired, ?_⟩
      intro i x hx
      rw [hinit.2.1 i] at hx
      cases hx
    . intro s a s' hinv hstep hrunning'
      exact (hinv (running_of_step hstep hrunning')).step hrunning' hstep
  exact hinv hrunning

/--
The names of two connections differ, and that of the next one is not in `connections_`. What happens to a connection
happens once and in one order, `connectEstablished` ahead of all events of its channel. It is in `connections_`
from `newConnection` to `removeConnectionInLoop`.
-/
theorem life_of_connections (h : system.Reachable s) (hrunning : s.teardown = .running)
    : (∀ i j x y, s.conns i = some x → s.conns j = some y → x.name = y.name → i = j)
        ∧ (s.server.nextConnId_ < INT_MAX →
          ∀ entry ∈ s.server.connections_, entry.1 ≠ s.server.connName s.server.nextConnId_)
        ∧ (∀ i x, s.conns i = some x →
          x.log.filter (· ≠ .channelEvent)
              <+: [.newConnection, .connectEstablished, .handleClose, .removeConnectionInLoop, .connectDestroyed]
            ∧ x.log.count .connectEstablished + (tasksOf i (s.loops x.loop_).loop).count .connectEstablished = 1
            ∧ ∀ earlier later, x.log = earlier ++ .channelEvent :: later → .connectEstablished ∈ earlier)
        ∧ ∀ connName i, (connName, i) ∈ s.server.connections_
          ↔ ∃ x, s.conns i = some x ∧ x.name = connName ∧ .newConnection ∈ x.log
            ∧ .removeConnectionInLoop ∉ x.log := by
  have hinv := inv_reachable h hrunning
  refine ⟨fun i j x y => hinv.name_injective, ?_, ?_, ?_⟩
  . rintro hmax ⟨connName, j⟩ hmem heq
    obtain ⟨y, hy, hname⟩ := hinv.map connName j hmem
    have hj := hinv.fresh j y hy
    rw [← hname, hinv.name j y hy] at heq
    have hsame := connName_injective hinv.ipPort_ (by omega) (by omega) heq
    omega
  . intro i x hx
    have hstage := hinv.staged i x hx
    exact ⟨hstage.order, hstage.count, hstage.channelEvent⟩
  . intro connName i
    constructor
    . intro hmem
      obtain ⟨x, hx, rfl⟩ := hinv.map connName i hmem
      have hinMap : (s.view i x).inMap = true := by
        simpa [view] using hmem
      obtain ⟨hnew, hremoved⟩ := (hinv.staged i x hx).inMap_iff.mp hinMap
      exact ⟨x, hx, rfl, hnew, hremoved⟩
    . rintro ⟨x, hx, rfl, hnew, hremoved⟩
      have hinMap := (hinv.staged i x hx).inMap_iff.mpr ⟨hnew, hremoved⟩
      simpa [view] using hinMap

-- two io loops: the peer closes the first connection, the user the second one
def closedOnBothLoops : List Label :=
  [.newConnection 7 false, .newConnection 8 true, .swap 1, .runFunctor 1 [] (.accepted 0), .endFunctors 1, .swap 2,
    .runFunctor 2 [] (.accepted 0), .forceClose 2 false, .endFunctors 2, .poll 1 [(1, EPOLLHUP)], .handleEvent 1,
    .callback 1 0 (.accepted 0), .poll 2 [], .swap 2, .runFunctor 2 [] (.accepted 0), .swap 0,
    .runFunctor 0 [] (.accepted 0), .runFunctor 0 [] (.accepted 0), .swap 1, .runFunctor 1 [] (.accepted 0)]

def logOf (s : ServerLoops) (i : Nat) : List LifeEvent :=
  ((s.conns i).map (·.log)).getD []

theorem life_of_connections_closedOnBothLoops
    : ∃ s, system.run (started 2) closedOnBothLoops = some s
        ∧ s.logOf 1 = [.newConnection, .connectEstablished, .channelEvent, .handleClose, .removeConnectionInLoop,
          .connectDestroyed]
        ∧ s.logOf 2 = [.newConnection, .connectEstablished, .handleClose, .removeConnectionInLoop]
        ∧ ∀ connName i, (connName, i) ∈ s.server.connections_
          ↔ ∃ x, s.conns i = some x ∧ x.name = connName ∧ .newConnection ∈ x.log
            ∧ .removeConnectionInLoop ∉ x.log := by
  have h : system.run (started 2) closedOnBothLoops = some _ := rfl
  refine ⟨_, h, rfl, rfl, ?_⟩
  exact (life_of_connections (LTS.Reachable.run (.init (started_init 2)) h) rfl).2.2.2

end ServerLoops

end TcpServer

end MyMuduo
