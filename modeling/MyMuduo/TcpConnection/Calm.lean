import MyMuduo.TcpConnection.Life
import MyMuduo.TcpConnection.Session

/-!
This module contains what no step of an established connection does, except for a `send` on another thread: to
bring the connection up, and to queue a message.
-/

namespace MyMuduo

namespace TcpConnection

-- the functor hands a message over to the loop thread
def Task.isSend : Task → Bool
  | .own (.sendInLoop _ _) => true
  | _ => false

namespace Life

variable {s s' : Life} {a : Label}

/--
A step that neither brings the connection up nor queues a message.
-/
structure Calm (s s' : Life) : Prop where
  state_ : s'.conn.state_ = .kConnected → s.conn.state_ = .kConnected
  queue : ∀ task ∈ s'.queue, task.isSend = true → task ∈ s.queue

-- only a call of `send` on another thread queues a message
def Label.queuesMessage : Label → Bool
  | .send false _ _ _ => true
  | _ => false

theorem Calm.of_pending (tasks : List Task) (hstate : s'.conn.state_ = .kConnected → s.conn.state_ = .kConnected)
    (hfunctors : ∀ task ∈ s'.loop.functors, task ∈ s.loop.functors)
    (hpending : s'.loop.pendingFunctors = s.loop.pendingFunctors ++ tasks)
    (htasks : ∀ task ∈ tasks, task.isSend = false) : Calm s s' := by
  refine ⟨hstate, ?_⟩
  intro task hmem hsend
  rw [Life.queue, List.mem_append, hpending, List.mem_append] at hmem
  rw [Life.queue, List.mem_append]
  obtain hmem | hmem | hmem := hmem
  . exact .inl (hfunctors _ hmem)
  . exact .inr hmem
  . rw [htasks _ hmem] at hsend
    cases hsend

theorem isSend_notice {f : Functor} (h : f.isNotice = true) : (Task.own f).isSend = false := by
  cases f <;> first | rfl | cases h

theorem Calm.of_frame {c : TcpConnection} {l : EventLoop Task}
    (hframe : Frame (id ∘ Task.own) s.conn l c s'.loop) (hconn : s'.conn.state_ = c.state_)
    (hfunctors : ∀ task ∈ l.functors, task ∈ s.loop.functors)
    (hpending : l.pendingFunctors = s.loop.pendingFunctors) : Calm s s' := by
  obtain ⟨notices, hnotices, hall⟩ := hframe.notices
  refine .of_pending (notices.map (id ∘ Task.own)) ?_ ?_ ?_ ?_
  . rw [hconn, hframe.state_]
    exact id
  . rw [hframe.functors]
    exact hfunctors
  . rw [hnotices, hpending]
  . intro task hmem
    obtain ⟨f, hf, rfl⟩ := List.mem_map.mp hmem
    exact isSend_notice (hall f hf)

theorem Calm.of_same (hstate : s'.conn.state_ = .kConnected → s.conn.state_ = .kConnected)
    (hfunctors : ∀ task ∈ s'.loop.functors, task ∈ s.loop.functors)
    (hpending : s'.loop.pendingFunctors = s.loop.pendingFunctors) : Calm s s' :=
  .of_pending [] hstate hfunctors (by rw [hpending, List.append_nil]) (by simp)

theorem Calm.handleClose {c : TcpConnection} {l : EventLoop Task} {notices : List Notice} (hsound : Sound s.conn l)
    (hfunctors : ∀ task ∈ l.functors, task ∈ s.loop.functors)
    (hpending : l.pendingFunctors = s.loop.pendingFunctors)
    (hclose : s.conn.handleClose l = some (c, s'.loop, notices)) (hconn : s'.conn = c) : Calm s s' := by
  obtain ⟨_, hstate, _, _, hpending', hfunctors'⟩ := hsound.handleClose hclose
  refine .of_same ?_ ?_ (hpending'.trans hpending)
  . rw [hconn, hstate]
    exact fun h => by cases h
  . rw [hfunctors']
    exact hfunctors

theorem Calm.connectDestroyed {c : TcpConnection} {l : EventLoop Task} {notices : List Notice}
    (hsound : Sound s.conn l) (hfunctors : ∀ task ∈ l.functors, task ∈ s.loop.functors)
    (hpending : l.pendingFunctors = s.loop.pendingFunctors)
    (hdestroy : s.conn.connectDestroyed l = some (c, s'.loop, notices)) (hconn : s'.conn = c) : Calm s s' := by
  obtain ⟨_, hstate, _, _, _, _, hpending', hfunctors'⟩ := hsound.connectDestroyed hdestroy
  refine .of_same ?_ ?_ (hpending'.trans hpending)
  . rw [hconn, hstate]
    split
    . exact fun h => by cases h
    . exact id
  . rw [hfunctors']
    exact hfunctors

theorem Calm.handleWrite {c : TcpConnection} {w : WriteResult}
    (hwrite : s.conn.handleWrite (id ∘ Task.own) s.loop w = some (c, s'.loop)) (hconn : s'.conn = c)
    : Calm s s' := by
  simp only [TcpConnection.handleWrite, Option.map_eq_some_iff, Prod.mk.injEq] at hwrite
  obtain ⟨⟨c₁, l₁, drained⟩, hdrain, rfl, rfl⟩ := hwrite
  refine .of_frame (drain_frame hdrain) ?_ (fun _ hmem => hmem) rfl
  rw [hconn]
  split
  . unfold shutdownIfDisconnecting
    split
    . exact Session.state_shutdownInLoop _
    . rfl
  . rfl

theorem Base.calm (h : s.Base) (ha : a.queuesMessage = false) (hstep : system.step s a = some s')
    : Calm s s' := by
  obtain ⟨henabled, hnext⟩ := LTS.guarded_step.mp hstep
  cases a with
  | callback n w =>
    simp only [next] at hnext
    split at hnext
    . cases hnext
    . next callback todo _ =>
      simp only [Option.map_eq_some_iff] at hnext
      obtain ⟨⟨conn, loop, notices⟩, hrun, rfl⟩ := hnext
      cases callback with
      | read =>
        simp only [runCallback, handleRead] at hrun
        split at hrun
        . simp only [Option.some.injEq, Prod.mk.injEq] at hrun
          obtain ⟨rfl, rfl, _⟩ := hrun
          exact .of_same id (fun _ hmem => hmem) rfl
        . split at hrun
          . exact .handleClose h.toSound (fun _ hmem => hmem) rfl hrun rfl
          . simp only [Option.some.injEq, Prod.mk.injEq] at hrun
            obtain ⟨rfl, rfl, _⟩ := hrun
            exact .of_same id (fun _ hmem => hmem) rfl
      | write =>
        simp only [runCallback, Option.map_eq_some_iff, Prod.mk.injEq] at hrun
        obtain ⟨_, hwrite, rfl, rfl, _⟩ := hrun
        exact .handleWrite hwrite rfl
      | close => exact .handleClose h.toSound (fun _ hmem => hmem) rfl hrun rfl
      | error =>
        simp only [runCallback, Option.some.injEq, Prod.mk.injEq] at hrun
        obtain ⟨rfl, rfl, _⟩ := hrun
        exact .of_same id (fun _ hmem => hmem) rfl
  | runFunctor message w =>
    simp only [next] at hnext
    split at hnext
    . cases hnext
    . next task functors hfunctors =>
      simp only [Option.map_eq_some_iff] at hnext
      obtain ⟨⟨conn, loop, notices⟩, hrun, rfl⟩ := hnext
      have hpopped : Sound s.conn { s.loop with functors := functors } :=
        ⟨h.synced, h.connected, h.closed, h.open_⟩
      have hrest : ∀ task ∈ functors, task ∈ s.loop.functors := by
        rw [hfunctors]
        exact fun _ hmem => List.mem_cons_of_mem _ hmem
      cases task with
      | connectEstablished =>
        refine absurd ?_ h.tasks
        simp [queue, hfunctors]
      | connectDestroyed => exact .connectDestroyed hpopped hrest rfl hrun rfl
      | forceCloseInLoop =>
        simp only [runTask, forceCloseInLoop] at hrun
        split at hrun
        . exact .handleClose hpopped hrest rfl hrun rfl
        . simp only [Option.some.injEq, Prod.mk.injEq] at hrun
          obtain ⟨rfl, rfl, _⟩ := hrun
          exact .of_same id hrest rfl
      | own f =>
        cases f with
        | sendInLoop addr len =>
          simp only [runTask, Option.map_eq_some_iff, Prod.mk.injEq] at hrun
          obtain ⟨_, hsend, rfl, rfl, _⟩ := hrun
          exact .of_frame (sendInLoop_frame hsend) rfl hrest rfl
        | shutdownInLoop =>
          simp only [runTask, Option.some.injEq, Prod.mk.injEq] at hrun
          obtain ⟨rfl, rfl, _⟩ := hrun
          exact .of_same (by simp [told, Session.state_shutdownInLoop]) hrest rfl
        | writeCompleteCallback | highWaterMarkCallback =>
          simp only [runTask, Option.some.injEq, Prod.mk.injEq] at hrun
          obtain ⟨rfl, rfl, _⟩ := hrun
          exact .of_same id hrest rfl
  | send isInLoopThread addr contents w =>
    cases isInLoopThread with
    | false => cases ha
    | true =>
      simp only [next, Option.map_eq_some_iff] at hnext
      obtain ⟨⟨conn, loop⟩, hsend, rfl⟩ := hnext
      simp only [send, if_true] at hsend
      split at hsend
      . exact .of_frame (sendInLoop_frame hsend) rfl (fun _ hmem => hmem) rfl
      . simp only [Option.some.injEq, Prod.mk.injEq] at hsend
        obtain ⟨rfl, rfl⟩ := hsend
        exact .of_same id (fun _ hmem => hmem) rfl
  | shutdown isInLoopThread =>
    simp only [next, shutdown, Option.some.injEq] at hnext
    split at hnext
    . next hstate =>
      split at hnext
      . subst hnext
        exact .of_same (fun _ => hstate) (fun _ hmem => hmem) rfl
      . subst hnext
        exact .of_pending [.own .shutdownInLoop] (fun _ => hstate) (by simp) (by simp) (by simp [Task.isSend])
    . subst hnext
      exact .of_same id (fun _ hmem => hmem) rfl
  | forceClose isInLoopThread =>
    simp only [next, forceClose, Option.some.injEq] at hnext
    split at hnext
    . subst hnext
      refine .of_pending [.forceCloseInLoop] ?_ (by simp) (by simp) (by simp [Task.isSend])
      exact fun h => by cases h
    . subst hnext
      exact .of_same id (fun _ hmem => hmem) rfl
  | destroyServer isInLoopThread =>
    simp only [next] at hnext
    split at hnext
    . simp only [Option.map_eq_some_iff] at hnext
      obtain ⟨⟨conn, loop, notices⟩, hdestroy, rfl⟩ := hnext
      exact .connectDestroyed h.toSound (fun _ hmem => hmem) rfl hdestroy rfl
    . simp only [Option.some.injEq] at hnext
      subst hnext
      exact .of_pending [.connectDestroyed] id (by simp) (by simp) (by simp [Task.isSend])
  | removeConnectionInLoop isInLoopThread =>
    simp only [next, Option.some.injEq] at hnext
    subst hnext
    exact .of_pending [.connectDestroyed] id (by simp) (by simp) (by simp [Task.isSend])
  | swap =>
    simp only [next, Option.some.injEq] at hnext
    subst hnext
    refine ⟨id, fun task hmem _ => ?_⟩
    simp only [queue, EventLoop.swapFunctors, List.append_nil, List.mem_append] at hmem ⊢
    exact .inr hmem
  | handleEvent =>
    simp only [next, Option.map_eq_some_iff] at hnext
    obtain ⟨_, _, rfl⟩ := hnext
    exact .of_same id (fun _ hmem => hmem) rfl
  | poll | endFunctors | otherChannels =>
    simp only [next, Option.some.injEq] at hnext
    subst hnext
    exact .of_same id (fun _ hmem => hmem) rfl

end Life

end TcpConnection

end MyMuduo
