import MyMuduo.TcpConnection.Lifecycle
import MyMuduo.Transition.Basic

/-!
This module contains the runs of one established connection with its loop, its server and its users,
where each call and each handler is one step.
-/

namespace MyMuduo

namespace TcpConnection

-- where an iteration of the loop is
inductive Phase where
  | polling
  | events
  | functors
  deriving DecidableEq, Repr

/--
`active` is what epoll has reported for the channel while `handleEvent` is still to come, and `todo` are
the callbacks of the `handleEvent` in progress. `removing` counts the calls of `removeConnectionInLoop` on
their way, `inMap` says whether the connection is in `connections_`. The last two fields are history:
whether `connectDestroyed` has run, and the callbacks that were invoked.
-/
structure Life where
  conn : TcpConnection
  loop : EventLoop Task
  phase : Phase
  active : Option Events
  todo : List Callback
  inMap : Bool
  removing : Nat
  destroyed : Bool
  notices : List Notice

namespace Life

/--
The booleans say whether the loop thread of the connection does it. `otherChannels` are the calls of
`updateChannel` and `removeChannel` for other descriptors.
-/
inductive Label where
  | poll (revents : Option Events)
  | handleEvent
  | callback (n : Int) (w : WriteResult)
  | swap
  | runFunctor (message : List UInt8) (w : WriteResult)
  | endFunctors
  | send (isInLoopThread : Bool) (message : Addr) (contents : List UInt8) (w : WriteResult)
  | shutdown (isInLoopThread : Bool)
  | forceClose (isInLoopThread : Bool)
  | removeConnectionInLoop (isInLoopThread : Bool)
  | destroyServer (isInLoopThread : Bool)
  | otherChannels (poller : EPollPoller)

-- the step calls no function of the connection
def Label.leavesAlone : Label → Bool
  | .callback .. | .runFunctor .. | .send .. | .shutdown _ | .forceClose _ | .destroyServer true => false
  | _ => true

def Label.ofBaseLoop : Label → Bool
  | .removeConnectionInLoop _ | .destroyServer _ => true
  | _ => false

/--
A connection as `connectEstablished` leaves it. The server may have queued `connectDestroyed` already.
-/
def Established (s : Life) : Prop :=
  (∃ channel sockfd writeComplete highWaterMark l, (l.poller.epoll sockfd).isSome = false
    ∧ (∀ task ∈ l.functors ++ l.pendingFunctors, task = .connectDestroyed)
    ∧ ((new channel sockfd).setCallbacks writeComplete highWaterMark).runTask id l [] (.accepted 0)
        .connectEstablished = some (s.conn, s.loop, s.notices)
    ∧ (s.phase ≠ .functors → l.functors = []))
    ∧ s.active = none ∧ s.todo = [] ∧ s.removing = 0 ∧ s.destroyed = false

-- what epoll may report for the channel
def reports (s : Life) (revents : Events) : Bool :=
  match s.loop.poller.epoll s.conn.channel.fd with
  | none => false
  | some (events, _) =>
    revents ≠ 0 && revents &&& ~~~(events ||| EPOLLERR ||| EPOLLHUP) = 0

-- the functor reads as many bytes as it was told
def reads (message : List UInt8) (w : WriteResult) : Task → Bool
  | .own (.sendInLoop _ len) => message.length = len && w.fits len
  | _ => true

def enabled (s : Life) : Label → Bool
  | .poll revents => s.phase = .polling && revents.all s.reports
  | .handleEvent => s.active.isSome
  | .callback _ w => w.fits s.conn.outputBuffer.readableBytes
  | .swap => s.phase = .events && s.active.isNone && s.todo.isEmpty
  | .runFunctor message w => s.phase = .functors && s.loop.functors.head?.all (reads message w)
  | .endFunctors => s.phase = .functors && s.loop.functors.isEmpty
  | .send _ _ contents w => w.fits contents.length
  | .shutdown _ | .forceClose _ => true
  | .removeConnectionInLoop _ => 0 < s.removing
  | .destroyServer _ => s.inMap
  | .otherChannels poller =>
    poller.epoll s.conn.channel.fd = s.loop.poller.epoll s.conn.channel.fd
      && poller.channels s.conn.channel.fd = s.loop.poller.channels s.conn.channel.fd

-- the result of a handler: `closeCallback_` is `TcpServer::removeConnection`
def told (s : Life) (r : TcpConnection × EventLoop Task × List Notice) : Life :=
  { s with
      conn := r.1
      loop := r.2.1
      notices := s.notices ++ r.2.2
      removing := s.removing + r.2.2.count .closeCallback }

def next (s : Life) : Label → Option Life
  | .poll revents => some { s with phase := .events, active := revents }
  | .handleEvent =>
    s.active.map fun revents =>
      { s with active := none, todo := { s.conn.channel with revents := revents }.handleEventWithGuard }
  | .callback n w =>
    match s.todo with
    | [] => none
    | callback :: todo =>
      (s.conn.runCallback id s.loop n w callback).map fun r => { s with todo := todo }.told r
  | .swap => some { s with loop := s.loop.swapFunctors, phase := .functors }
  | .runFunctor message w =>
    match s.loop.functors with
    | [] => none
    | task :: functors =>
      (s.conn.runTask id { s.loop with functors := functors } message w task).map fun r =>
        { s with destroyed := s.destroyed || task = Task.connectDestroyed }.told r
  | .endFunctors => some { s with phase := .polling }
  | .send isInLoopThread message contents w =>
    (s.conn.send .own isInLoopThread s.loop message contents w).map fun (conn, loop) =>
      { s with conn := conn, loop := loop }
  | .shutdown isInLoopThread =>
    let (conn, loop) := s.conn.shutdown .own isInLoopThread s.loop
    some { s with conn := conn, loop := loop }
  | .forceClose isInLoopThread =>
    let (conn, loop) := s.conn.forceClose id isInLoopThread s.loop
    some { s with conn := conn, loop := loop }
  | .removeConnectionInLoop isInLoopThread =>
    some
      { s with
          removing := s.removing - 1
          inMap := false
          loop := s.loop.queueInLoop isInLoopThread .connectDestroyed }
  | .destroyServer isInLoopThread =>
    if isInLoopThread then
      (s.conn.connectDestroyed s.loop).map fun r => { s with inMap := false, destroyed := true }.told r
    else
      some { s with inMap := false, loop := s.loop.queueInLoop false .connectDestroyed }
  | .otherChannels poller => some { s with loop := { s.loop with poller := poller } }

def system : LTS Life Label :=
  .guarded Established enabled next

/-
What holds in every run.
-/

-- the functors that wait, in the order in which they will run
def queue (s : Life) : List Task :=
  s.loop.functors ++ s.loop.pendingFunctors

/--
The channel and the poller agree, and the channel is watched while the connection is up.
-/
structure Sound (c : TcpConnection) (l : EventLoop Task) : Prop where
  synced : c.channel.Synced l.poller
  connected : c.state_ = .kConnected → c.channel.Registered
  closed : c.state_ = .kDisconnected → c.channel.events = Channel.kNoneEvent
  open_ : c.state_ ≠ .kConnecting

structure Base (s : Life) : Prop extends Sound s.conn s.loop where
  tasks : .connectEstablished ∉ s.queue
  idle : s.phase ≠ .events → s.active = none ∧ s.todo = []
  handled : s.todo ≠ [] → s.active = none
  order : s.todo.Sublist [.close, .error, .read, .write]
  apart : .close ∈ s.todo → .read ∉ s.todo

variable {c c' : TcpConnection} {l l' : EventLoop Task} {notices : List Notice}

theorem not_isWriting_of_none {channel : Channel} (h : channel.events = Channel.kNoneEvent)
    : channel.isWriting = false := by
  simp [Channel.isWriting, h, Channel.kNoneEvent]

theorem Sound.quiet (h : Sound c l) (hquiet : Quiet (id ∘ .own) c l c' l' notices) : Sound c' l' := by
  refine ⟨hquiet.channel.synced h.synced, ?_, ?_, ?_⟩
  . intro hstate
    exact hquiet.channel.registered (h.connected (hquiet.state_ ▸ hstate))
  . intro hstate
    have hclosed := h.closed (hquiet.state_ ▸ hstate)
    rw [(hquiet.closed (hquiet.state_ ▸ hstate) (not_isWriting_of_none hclosed)).1]
    exact hclosed
  . rw [hquiet.state_]
    exact h.open_

theorem Sound.handleClose (h : Sound c l) (hclose : c.handleClose l = some (c', l', notices))
    : Sound c' l' ∧ c'.state_ = .kDisconnected ∧ c'.channel.fd = c.channel.fd
        ∧ notices = [.connectionCallback false, .closeCallback]
        ∧ l'.pendingFunctors = l.pendingFunctors ∧ l'.functors = l.functors := by
  obtain ⟨_, _, heq, hstate, hsynced, hevents, hfd, hpending, hfunctors⟩ := handleClose_spec h.synced
  rw [hclose, Option.some.injEq, Prod.mk.injEq, Prod.mk.injEq] at heq
  obtain ⟨rfl, rfl, rfl⟩ := heq
  refine ⟨⟨hsynced, ?_, fun _ => hevents, ?_⟩, hstate, hfd, rfl, hpending, hfunctors⟩
  . simp [hstate]
  . simp [hstate]

theorem Sound.connectDestroyed (h : Sound c l) (hdestroy : c.connectDestroyed l = some (c', l', notices))
    : Sound c' l' ∧ c'.state_ = (if c.state_ = .kConnected then .kDisconnected else c.state_)
        ∧ c'.channel.fd = c.channel.fd
        ∧ l'.poller.channels c.channel.fd = none ∧ l'.poller.epoll c.channel.fd = none
        ∧ notices = (if c.state_ = .kConnected then [.connectionCallback false] else [])
        ∧ l'.pendingFunctors = l.pendingFunctors ∧ l'.functors = l.functors := by
  obtain ⟨_, _, heq, hstate, hevents, hindex, hfd, _, hchannels, hepoll, hpending, hfunctors⟩ :=
    connectDestroyed_spec h.synced fun hup => (h.connected hup).1
  rw [hdestroy, Option.some.injEq, Prod.mk.injEq, Prod.mk.injEq] at heq
  obtain ⟨rfl, rfl, rfl⟩ := heq
  refine ⟨⟨?_, ?_, ?_, ?_⟩, hstate, hfd, hchannels, hepoll, rfl, hpending, hfunctors⟩
  . simp [Channel.Synced, hindex, hfd, hepoll]
  . rw [hstate]
    split <;> simp_all
  . intro hdown
    rw [hevents]
    split
    . rfl
    . next hnot =>
      rw [hstate, if_neg hnot] at hdown
      exact h.closed hdown
  . rw [hstate]
    split
    . simp
    . exact h.open_

theorem Sound.shutdown (h : Sound c l) (isInLoopThread : Bool)
    : Sound (c.shutdown .own isInLoopThread l).1 (c.shutdown .own isInLoopThread l).2 := by
  obtain ⟨_, _, heq, hchannel, hpoller, _, _, hstate⟩ := shutdown_spec Task.own isInLoopThread c l
  rw [heq]
  refine ⟨?_, ?_, ?_, ?_⟩
  . rw [hchannel, hpoller]
    exact h.synced
  . rw [hstate]
    split <;> simp_all
  . rw [hstate, hchannel]
    split
    . simp
    . exact h.closed
  . rw [hstate]
    split
    . simp
    . exact h.open_

theorem Sound.forceClose (h : Sound c l) (isInLoopThread : Bool)
    : Sound (c.forceClose id isInLoopThread l).1 (c.forceClose id isInLoopThread l).2 := by
  obtain ⟨_, _, heq, hchannel, hpoller, _, hopen, hclosed⟩ := forceClose_spec id isInLoopThread c l
  rw [heq]
  by_cases hstate : c.state_ = .kConnected ∨ c.state_ = .kDisconnecting
  . have hstate' := (hopen hstate).2
    refine ⟨?_, ?_, ?_, ?_⟩
    . rw [hchannel, hpoller]
      exact h.synced
    all_goals
      simp [hstate']
  . obtain ⟨rfl, rfl⟩ := hclosed hstate
    exact h

-- what is queued besides `connectEstablished`
theorem tasks_of_pending {tasks : List Task} {functors functors' pending : List Task}
    (h : Task.connectEstablished ∉ functors ++ pending) (hfunctors : ∀ task ∈ functors', task ∈ functors)
    (htasks : Task.connectEstablished ∉ tasks) : Task.connectEstablished ∉ functors' ++ (pending ++ tasks) := by
  simp only [List.mem_append, not_or] at h ⊢
  exact ⟨fun hmem => h.1 (hfunctors _ hmem), h.2, htasks⟩

theorem not_mem_own (fs : List Functor) : Task.connectEstablished ∉ fs.map .own := by
  simp

theorem order_handleEvent (channel : Channel)
    : channel.handleEventWithGuard.Sublist [.close, .error, .read, .write]
        ∧ (.close ∈ channel.handleEventWithGuard → .read ∉ channel.handleEventWithGuard) := by
  have hrun : ∀ (test : Bool) (callback : Callback),
      (if test && channel.callbacks.contains callback then [callback] else []).Sublist [callback] := by
    intro test callback
    split
    . exact List.Sublist.refl _
    . exact List.nil_sublist _
  constructor
  . exact (((hrun _ .close).append (hrun _ .error)).append (hrun _ .read)).append (hrun _ .write)
  . intro hclose hread
    simp [Channel.handleEventWithGuard] at hclose hread
    simp_all

theorem Established.conn {s : Life} (h : s.Established)
    : s.conn.state_ = .kConnected ∧ s.conn.channel.Synced s.loop.poller ∧ s.conn.channel.Registered
        ∧ s.notices = [.connectionCallback true]
        ∧ (∀ task ∈ s.loop.functors ++ s.loop.pendingFunctors, task = .connectDestroyed) := by
  obtain ⟨⟨channel, sockfd, writeComplete, highWaterMark, l, hfd, htasks, hnew, _⟩, _⟩ := h
  have habsent : l.poller.epoll sockfd = none := by
    rw [← Option.not_isSome_iff_eq_none, hfd]
    exact Bool.false_ne_true
  obtain ⟨c', l', heq, hstate, hsynced, hregistered, _, hpending, hfunctors⟩ :=
    connectEstablished_spec (c := (new channel sockfd).setCallbacks writeComplete highWaterMark) (l := l)
      rfl rfl habsent
  simp only [runTask, heq, Option.map_some, Option.some.injEq, Prod.mk.injEq] at hnew
  obtain ⟨rfl, rfl, hnotices⟩ := hnew
  have hup : s.conn.connected = true := by
    simp [connected, hstate]
  rw [hup] at hnotices
  refine ⟨hstate, hsynced, hregistered, hnotices.symm, ?_⟩
  rw [hpending, hfunctors]
  exact htasks

theorem Base.init {s : Life} (h : s.Established)
    : s.Base ∧ s.conn.state_ = .kConnected ∧ s.notices = [.connectionCallback true] := by
  obtain ⟨hstate, hsynced, hregistered, hnotices, htasks⟩ := h.conn
  obtain ⟨_, hactive, htodo, _, _⟩ := h
  refine ⟨⟨⟨hsynced, fun _ => hregistered, by simp [hstate], by simp [hstate]⟩, ?_, ?_, ?_, ?_, ?_⟩, hstate,
    hnotices⟩
  . intro hmem
    cases htasks _ hmem
  . exact fun _ => ⟨hactive, htodo⟩
  . exact fun _ => hactive
  . rw [htodo]
    exact List.nil_sublist _
  . rw [htodo]
    exact fun hmem => absurd hmem List.not_mem_nil

theorem Base.callback {s s' : Life} {n : Int} {w : WriteResult} (h : s.Base)
    (hnext : s.next (.callback n w) = some s') : s'.Base := by
  simp only [next] at hnext
  split at hnext
  . cases hnext
  . next callback todo htodo =>
    simp only [Option.map_eq_some_iff] at hnext
    obtain ⟨⟨conn, loop, notices⟩, hrun, rfl⟩ := hnext
    have hactive := h.handled (by simp [htodo])
    have horder := h.order
    have hapart := h.apart
    rw [htodo] at horder hapart
    have hsound : Sound conn loop ∧ loop.functors = s.loop.functors
        ∧ ∃ fs : List Functor, loop.pendingFunctors = s.loop.pendingFunctors ++ fs.map .own := by
      cases runCallback_cases hrun with
      | inl hquiet => exact ⟨h.toSound.quiet hquiet, hquiet.functors, hquiet.pending⟩
      | inr hclose =>
        obtain ⟨hsound, _, _, _, hpending, hfunctors⟩ := h.toSound.handleClose hclose.2
        exact ⟨hsound, hfunctors, [], by simp [hpending]⟩
    obtain ⟨hsound, hfunctors, fs, hpending⟩ := hsound
    refine ⟨hsound, ?_, ?_, fun _ => hactive, (List.sublist_cons_self _ _).trans horder, ?_⟩
    . change Task.connectEstablished ∉ loop.functors ++ loop.pendingFunctors
      rw [hfunctors, hpending]
      exact tasks_of_pending h.tasks (fun _ hmem => hmem) (not_mem_own fs)
    . intro hphase
      have hidle := (h.idle hphase).2
      rw [htodo] at hidle
      cases hidle
    . intro hclose hread
      exact hapart (List.mem_cons_of_mem _ hclose) (List.mem_cons_of_mem _ hread)

theorem Base.runFunctor {s s' : Life} {message : List UInt8} {w : WriteResult} (h : s.Base)
    (hphase : s.phase = .functors) (hnext : s.next (.runFunctor message w) = some s') : s'.Base := by
  simp only [next] at hnext
  split at hnext
  . cases hnext
  . next task functors hfunctors =>
    simp only [Option.map_eq_some_iff] at hnext
    obtain ⟨⟨conn, loop, notices⟩, hrun, rfl⟩ := hnext
    have htasks := h.tasks
    rw [queue, hfunctors] at htasks
    have hopen : task ≠ .connectEstablished := by
      rintro rfl
      exact htasks (List.mem_cons_self ..)
    have hpopped : Sound s.conn { s.loop with functors := functors } :=
      ⟨h.synced, h.connected, h.closed, h.open_⟩
    obtain ⟨hactive, htodo⟩ := h.idle (by simp [hphase])
    have hsound : Sound conn loop ∧ loop.functors = functors
        ∧ ∃ fs : List Functor, loop.pendingFunctors = s.loop.pendingFunctors ++ fs.map .own := by
      obtain ⟨hquiet, _⟩ | ⟨_, _, hclose⟩ | ⟨_, hdestroy⟩ := runTask_cases hrun hopen
      . exact ⟨hpopped.quiet hquiet, hquiet.functors, hquiet.pending⟩
      . obtain ⟨hsound, _, _, _, hpending, hfunctors⟩ := hpopped.handleClose hclose
        exact ⟨hsound, hfunctors, [], by simp [hpending]⟩
      . obtain ⟨hsound, _, _, _, _, _, hpending, hfunctors⟩ := hpopped.connectDestroyed hdestroy
        exact ⟨hsound, hfunctors, [], by simp [hpending]⟩
    obtain ⟨hsound, hrest, fs, hpending⟩ := hsound
    refine ⟨hsound, ?_, fun _ => ⟨hactive, htodo⟩, fun hne => absurd htodo hne, ?_, ?_⟩
    . change Task.connectEstablished ∉ loop.functors ++ loop.pendingFunctors
      rw [hrest, hpending]
      exact tasks_of_pending htasks (fun _ hmem => List.mem_cons_of_mem _ hmem) (not_mem_own fs)
    . exact h.order
    . exact h.apart

theorem Base.step {s s' : Life} {a : Label} (h : s.Base) (hstep : system.step s a = some s') : s'.Base := by
  obtain ⟨henabled, hnext⟩ := LTS.guarded_step.mp hstep
  cases a with
  | callback n w => exact h.callback hnext
  | runFunctor message w =>
    simp only [enabled, Bool.and_eq_true, decide_eq_true_eq] at henabled
    exact h.runFunctor henabled.1 hnext
  | poll revents =>
    simp only [next, Option.some.injEq] at hnext
    subst hnext
    simp only [enabled, Bool.and_eq_true, decide_eq_true_eq] at henabled
    obtain ⟨_, htodo⟩ := h.idle (by simp [henabled.1])
    exact ⟨h.toSound, h.tasks, fun hphase => absurd rfl hphase, fun hne => absurd htodo hne, h.order, h.apart⟩
  | handleEvent =>
    simp only [next, Option.map_eq_some_iff] at hnext
    obtain ⟨revents, hactive, rfl⟩ := hnext
    obtain ⟨horder, hapart⟩ := order_handleEvent { s.conn.channel with revents := revents }
    refine ⟨h.toSound, h.tasks, ?_, fun _ => rfl, horder, hapart⟩
    intro hphase
    have hidle := (h.idle hphase).1
    rw [hactive] at hidle
    cases hidle
  | swap =>
    simp only [next, Option.some.injEq] at hnext
    subst hnext
    simp only [enabled, Bool.and_eq_true, Option.isNone_iff_eq_none, List.isEmpty_iff] at henabled
    have htasks := h.tasks
    simp only [queue, List.mem_append, not_or] at htasks
    refine ⟨⟨h.synced, h.connected, h.closed, h.open_⟩, ?_, fun _ => ⟨henabled.1.2, henabled.2⟩, h.handled, h.order,
      h.apart⟩
    simpa [queue, EventLoop.swapFunctors] using htasks.2
  | endFunctors =>
    simp only [next, Option.some.injEq] at hnext
    subst hnext
    simp only [enabled, Bool.and_eq_true, decide_eq_true_eq] at henabled
    exact ⟨h.toSound, h.tasks, fun _ => h.idle (by simp [henabled.1]), h.handled, h.order, h.apart⟩
  | send isInLoopThread message contents w =>
    simp only [next, Option.map_eq_some_iff] at hnext
    obtain ⟨⟨conn, loop⟩, hsend, rfl⟩ := hnext
    have hquiet := quiet_send hsend
    obtain ⟨fs, hpending⟩ := hquiet.pending
    refine ⟨h.toSound.quiet hquiet, ?_, h.idle, h.handled, h.order, h.apart⟩
    change Task.connectEstablished ∉ loop.functors ++ loop.pendingFunctors
    rw [hquiet.functors, hpending]
    exact tasks_of_pending h.tasks (fun _ hmem => hmem) (not_mem_own fs)
  | shutdown isInLoopThread =>
    simp only [next, Option.some.injEq] at hnext
    subst hnext
    obtain ⟨_, _, heq, _, _, hfunctors, ⟨fs, hpending⟩, _⟩ :=
      shutdown_spec Task.own isInLoopThread s.conn s.loop
    refine ⟨h.toSound.shutdown isInLoopThread, ?_, h.idle, h.handled, h.order, h.apart⟩
    simp only [queue, heq, hfunctors, hpending]
    exact tasks_of_pending h.tasks (fun _ hmem => hmem) (not_mem_own fs)
  | forceClose isInLoopThread =>
    simp only [next, Option.some.injEq] at hnext
    subst hnext
    obtain ⟨_, _, heq, _, _, hfunctors, hopen, hclosed⟩ := forceClose_spec id isInLoopThread s.conn s.loop
    refine ⟨h.toSound.forceClose isInLoopThread, ?_, h.idle, h.handled, h.order, h.apart⟩
    simp only [queue, heq]
    by_cases hstate : s.conn.state_ = .kConnected ∨ s.conn.state_ = .kDisconnecting
    . rw [hfunctors, (hopen hstate).1]
      exact tasks_of_pending h.tasks (fun _ hmem => hmem) (by simp)
    . rw [(hclosed hstate).2]
      exact h.tasks
  | removeConnectionInLoop isInLoopThread =>
    simp only [next, Option.some.injEq] at hnext
    subst hnext
    refine ⟨⟨by simpa using h.synced, h.connected, h.closed, h.open_⟩, ?_, h.idle, h.handled, h.order, h.apart⟩
    simp only [queue, EventLoop.functors_queueInLoop, EventLoop.pendingFunctors_queueInLoop]
    exact tasks_of_pending h.tasks (fun _ hmem => hmem) (by simp)
  | destroyServer isInLoopThread =>
    simp only [next] at hnext
    split at hnext
    . simp only [Option.map_eq_some_iff] at hnext
      obtain ⟨⟨conn, loop, notices⟩, hdestroy, rfl⟩ := hnext
      obtain ⟨hsound, _, _, _, _, _, hpending, hfunctors⟩ := h.toSound.connectDestroyed hdestroy
      refine ⟨hsound, ?_, h.idle, h.handled, h.order, h.apart⟩
      change Task.connectEstablished ∉ loop.functors ++ loop.pendingFunctors
      rw [hfunctors, hpending]
      exact h.tasks
    . simp only [Option.some.injEq] at hnext
      subst hnext
      refine ⟨⟨by simpa using h.synced, h.connected, h.closed, h.open_⟩, ?_, h.idle, h.handled, h.order,
        h.apart⟩
      simp only [queue, EventLoop.functors_queueInLoop, EventLoop.pendingFunctors_queueInLoop]
      exact tasks_of_pending h.tasks (fun _ hmem => hmem) (by simp)
  | otherChannels poller =>
    simp only [next, Option.some.injEq] at hnext
    subst hnext
    simp only [enabled, Bool.and_eq_true, decide_eq_true_eq] at henabled
    refine ⟨⟨?_, h.connected, h.closed, h.open_⟩, h.tasks, h.idle, h.handled, h.order, h.apart⟩
    have hsynced := h.synced
    unfold Channel.Synced at hsynced ⊢
    dsimp only
    rw [henabled.1]
    exact hsynced

theorem base_reachable {s : Life} (h : system.Reachable s) : s.Base := by
  apply h.invariant Base
  . exact fun _ hinit => (Base.init hinit).1
  . exact fun _ _ _ hbase hstep => hbase.step hstep

-- a connection on descriptor 7 with no callbacks set, whose `connectEstablished` has been run in a handler
def established : Life :=
  let r := ((new 2 7).runTask id (.constructed _) [] (.accepted 0) .connectEstablished).get rfl
  { conn := r.1
    loop := r.2.1
    phase := .events
    active := none
    todo := []
    inMap := true
    removing := 0
    destroyed := false
    notices := r.2.2 }

theorem established_init : established.Established := by
  refine ⟨⟨2, 7, false, false, .constructed _, rfl, ?_, rfl, fun _ => rfl⟩, rfl, rfl, rfl, rfl⟩
  intro task hmem
  cases hmem

end Life

end TcpConnection

end MyMuduo
