import MyMuduo.Poller.Polling
import MyMuduo.TcpConnection.Tracked
import MyMuduo.TcpServer.Lifecycle

/-!
This module contains what the loops of a server watch: the channels that they had at the start, and those of the
connections that are open. No call of `epoll_ctl` ends the process.
-/

namespace MyMuduo

namespace ChannelTable

variable {s : ChannelTable} {addr : Addr} {c : Channel}

-- the destructor of a channel that has been removed
theorem Inv.drop (h : s.Inv) (hc : s.channels addr = some c) (hindex : c.index = .kNew)
    : Inv { s with channels := Function.update s.channels addr none } := by
  have hback : ∀ other d, Function.update s.channels addr none other = some d → s.channels other = some d := by
    intro other d hd
    by_cases heq : other = addr
    . subst heq
      rw [Function.update_self] at hd
      cases hd
    . rwa [Function.update_of_ne heq] at hd
  refine ⟨?_, ?_, ?_, ?_⟩
  . exact fun other d hd => h.addr other d (hback other d hd)
  . exact fun other other' d d' hd hd' => h.one other other' d d' (hback other d hd) (hback other' d' hd')
  . exact fun other d hd => h.used other d (hback other d hd)
  . intro fd hunused
    apply h.unused fd
    intro other d hd hfd
    by_cases heq : other = addr
    . subst heq
      rw [hc, Option.some.injEq] at hd
      exact hd ▸ hindex
    . exact hunused other d ((Function.update_of_ne heq ..).trans hd) hfd

end ChannelTable

namespace TcpServer

open TcpConnection (Task Notice Functor Tracked)

-- the channel of the connection if it is on loop `k`, until `connectDestroyed`
def Accepted.channel? (k : Nat) (x : Accepted) : Option Channel :=
  if x.loop_ = k ∧ .connectDestroyed ∉ x.log then some x.conn.channel else none

namespace ServerLoops

/--
The channels on the poller of loop `k`: those of the connections, and `others`.
-/
def table (others : Nat → Addr → Option Channel) (s : ServerLoops) (k : Nat) : ChannelTable where
  poller := (s.loops k).loop.poller
  channels addr :=
    match s.conns addr with
    | some x => x.channel? k
    | none => others k addr

/--
The loops have other channels, which are in use, under addresses that are not numbers of connections.
-/
structure Prepared (others : Nat → Addr → Option Channel) (s : ServerLoops) : Prop where
  started : s.Started
  registered : ∀ k, ChannelTable.system.ReachableBy ChannelTable.CallersObey
    { poller := (s.loops k).loop.poller, channels := others k }
  added : ∀ k addr d, others k addr = some d → d.index = .kAdded
  addr : ∀ k addr d, others k addr = some d → INT_MAX ≤ addr

structure Registry (others : Nat → Addr → Option Channel) (s : ServerLoops) : Prop where
  inv : ∀ k, (s.table others k).Inv
  apart : ∀ i x addr d, s.conns i = some x → .connectDestroyed ∉ x.log → others x.loop_ addr = some d →
    d.fd ≠ x.conn.channel.fd

variable {others : Nat → Addr → Option Channel} {s s' : ServerLoops} {i k : Nat} {x y : Accepted}

theorem table_congr (hpoller : (s'.loops k).loop.poller = (s.loops k).loop.poller)
    (hconns : ∀ j, (s'.conns j).map (Accepted.channel? k) = (s.conns j).map (Accepted.channel? k))
    : s'.table others k = s.table others k := by
  have hchannels : ∀ addr, (s'.table others k).channels addr = (s.table others k).channels addr := by
    intro addr
    have hconn := hconns addr
    simp only [table]
    cases h : s.conns addr with
    | none =>
      rw [h, Option.map_none, Option.map_eq_none_iff] at hconn
      rw [hconn]
    | some x =>
      rw [h, Option.map_some, Option.map_eq_some_iff] at hconn
      obtain ⟨x', hx', heq⟩ := hconn
      rw [hx']
      exact heq
  simp only [table, ChannelTable.mk.injEq] at hchannels ⊢
  exact ⟨hpoller, funext hchannels⟩

-- a step that leaves the pollers and the channels alone
theorem Registry.congr (h : s.Registry others) (hpoller : ∀ k, (s'.loops k).loop.poller = (s.loops k).loop.poller)
    (hconns : s'.conns = s.conns) : s'.Registry others := by
  refine ⟨?_, ?_⟩
  . intro k
    rw [table_congr (hpoller k) fun j => by rw [hconns]]
    exact h.inv k
  . rw [hconns]
    exact h.apart

/-
The connection `i` at work.
-/

theorem channels_table (others : Nat → Addr → Option Channel) (hx : s.conns i = some x)
    (hlive : .connectDestroyed ∉ x.log) : (s.table others x.loop_).channels i = some x.conn.channel := by
  simp [table, hx, Accepted.channel?, hlive]

theorem Registry.othersNew (h : s.Registry others) (hwired : s.Wired) (hx : s.conns i = some x)
    (hlive : .connectDestroyed ∉ x.log) : (s.table others x.loop_).OthersNew i x.conn.channel.fd := by
  intro other d hne hd hfd
  simp only [table] at hd
  split at hd
  . next y hy =>
    simp only [Accepted.channel?, Option.ite_none_right_eq_some, Option.some.injEq] at hd
    obtain ⟨⟨_, hother⟩, rfl⟩ := hd
    exact absurd hfd (hwired.fds other i y x hne hy hx hother hlive)
  . exact absurd hfd (h.apart i x other d hx hlive hd)

theorem Registry.reflects (h : s.Registry others) (hwired : s.Wired) (hx : s.conns i = some x)
    (hlive : .connectDestroyed ∉ x.log) : (s.loops x.loop_).loop.poller.Reflects x.conn.channel := by
  have hc := channels_table others hx hlive
  refine (h.inv x.loop_).reflects hc ?_
  intro hindex other d hd hfd
  by_cases heq : other = i
  . subst heq
    rw [hc, Option.some.injEq] at hd
    exact hd ▸ hindex
  . exact h.othersNew hwired hx hlive other d heq hd hfd

theorem table_put_of_ne {log : List LifeEvent} {c' : TcpConnection} {l' : EventLoop ServerTask}
    (hx : s.conns i = some x) (hne : k ≠ x.loop_)
    : (s.put i { x with log := log } c' l').table others k = s.table others k := by
  apply table_congr
  . simp [put, hne, setConn]
  . intro j
    by_cases heq : j = i
    . subst heq
      simp [conns_put, hx, Accepted.channel?, hne.symm]
    . simp [put, setLoop, heq]

theorem table_put {log : List LifeEvent} {c' : TcpConnection} {l' : EventLoop ServerTask}
    : (s.put i { x with log := log } c' l').table others x.loop_
        = { poller := l'.poller
            channels := Function.update (s.table others x.loop_).channels i
              (if .connectDestroyed ∈ log then none else some c'.channel) } := by
  simp only [table, ChannelTable.mk.injEq]
  refine ⟨by simp [put], ?_⟩
  funext addr
  by_cases heq : addr = i
  . subst heq
    simp only [conns_put, Function.update_self, Accepted.channel?, true_and]
    split <;> simp_all
  . simp [put, setLoop, heq]

/--
A function of the connection has gone through, and left the records of its channel in agreement.
-/
theorem Registry.put (h : s.Registry others) (hwired : s.Wired) (hx : s.conns i = some x)
    (hlive : .connectDestroyed ∉ x.log) {log : List LifeEvent} {c' : TcpConnection} {l' : EventLoop ServerTask}
    (htracked : Tracked x.conn (s.loops x.loop_).loop c' l')
    (hgone : .connectDestroyed ∈ log → c'.channel.index = .kNew)
    : (s.put i { x with log := log } c' l').Registry others := by
  have hinv := (h.inv x.loop_).set (channels_table others hx hlive) (h.othersNew hwired hx hlive) htracked.reflects
    htracked.frame
  refine ⟨?_, ?_⟩
  . intro k
    by_cases hloop : k = x.loop_
    . subst hloop
      rw [table_put]
      split
      . next hmem =>
        have hdropped := hinv.drop (Function.update_self ..) (hgone hmem)
        simpa only [Function.update_idem] using hdropped
      . exact hinv
    . rw [table_put_of_ne hx hloop]
      exact h.inv k
  . intro j y addr d hy hother hd
    by_cases heq : j = i
    . subst heq
      rw [conns_put, Option.some.injEq] at hy
      subst hy
      have hfd : c'.channel.fd = x.conn.channel.fd := htracked.frame.fd
      rw [hfd]
      exact h.apart j x addr d hx hlive hd
    . have hy : s.conns j = some y := by
        simpa [ServerLoops.put, setLoop, heq] using hy
      exact h.apart j y addr d hy hother hd

-- the function has not touched the channel
theorem Registry.put_still (h : s.Registry others) (hx : s.conns i = some x) {log : List LifeEvent}
    (hlog : .connectDestroyed ∈ log ↔ .connectDestroyed ∈ x.log) {c' : TcpConnection} {l' : EventLoop ServerTask}
    (hchannel : c'.channel = x.conn.channel) (hpoller : l'.poller = (s.loops x.loop_).loop.poller)
    : (s.put i { x with log := log } c' l').Registry others := by
  refine ⟨?_, ?_⟩
  . intro k
    rw [table_congr (s := s)]
    . exact h.inv k
    . simp only [ServerLoops.put, loop_setLoop]
      split
      . next heq => rw [hpoller, heq]
      . rfl
    . intro j
      by_cases heq : j = i
      . subst heq
        simp [conns_put, hx, Accepted.channel?, hlog, hchannel]
      . simp [ServerLoops.put, setLoop, heq]
  . intro j y addr d hy hother hd
    by_cases heq : j = i
    . subst heq
      rw [conns_put, Option.some.injEq] at hy
      subst hy
      rw [hchannel]
      exact h.apart j x addr d hx (by rwa [← hlog]) hd
    . have hy : s.conns j = some y := by
        simpa [ServerLoops.put, setLoop, heq] using hy
      exact h.apart j y addr d hy hother hd

theorem Registry.removeConnectionInLoop (h : s.Registry others) (i : Nat)
    : (s.removeConnectionInLoop i).Registry others := by
  cases hx : s.conns i with
  | none => simpa only [ServerLoops.removeConnectionInLoop, hx] using h
  | some x =>
    have hput : (s.put i { x with log := x.log ++ [.removeConnectionInLoop] } x.conn
        (s.loops x.loop_).loop).Registry others :=
      h.put_still hx (by simp) rfl rfl
    rw [removeConnectionInLoop_eq hx]
    refine hput.congr ?_ rfl
    intro m
    simp only [queueInLoop, ServerLoops.put, loop_setLoop]
    split
    . exact EventLoop.poller_queueInLoop ..
    . rfl

theorem Registry.queueInLoop (h : s.Registry others) (thread k : Nat) (cb : ServerTask)
    : (s.queueInLoop thread k cb).Registry others := by
  refine h.congr ?_ rfl
  intro m
  simp only [ServerLoops.queueInLoop, loop_setLoop]
  split
  . next heq => rw [EventLoop.poller_queueInLoop, heq]
  . rfl

theorem Registry.removeConnection (h : s.Registry others) (thread i : Nat)
    : (s.removeConnection thread i).Registry others := by
  have hused : s.useServer.Registry others := h.congr (fun _ => rfl) rfl
  unfold ServerLoops.removeConnection
  split
  . exact hused.removeConnectionInLoop i
  . exact hused.queueInLoop thread 0 _

theorem Registry.finish (h : s.Registry others) (hwired : s.Wired) (hx : s.conns i = some x)
    (hlive : .connectDestroyed ∉ x.log) {events : List LifeEvent} {c' : TcpConnection} {l' : EventLoop ServerTask}
    (notices : List Notice) (htracked : Tracked x.conn (s.loops x.loop_).loop c' l')
    (hgone : .connectDestroyed ∈ events → c'.channel.index = .kNew)
    : (s.finish i x events (c', l', notices)).Registry others := by
  unfold ServerLoops.finish
  split
  . refine Registry.removeConnection (h.put hwired hx hlive htracked ?_) _ i
    simpa [hlive] using hgone
  . refine h.put hwired hx hlive htracked ?_
    simpa [hlive] using hgone

theorem Registry.finish_still (h : s.Registry others) (hx : s.conns i = some x) {events : List LifeEvent}
    (hevents : .connectDestroyed ∉ events) {c' : TcpConnection} {l' : EventLoop ServerTask} (notices : List Notice)
    (hchannel : c'.channel = x.conn.channel) (hpoller : l'.poller = (s.loops x.loop_).loop.poller)
    : (s.finish i x events (c', l', notices)).Registry others := by
  unfold ServerLoops.finish
  split
  . exact Registry.removeConnection (h.put_still hx (by simp [hevents]) hchannel hpoller) _ i
  . exact h.put_still hx (by simp [hevents]) hchannel hpoller

end ServerLoops

/-
What still runs for a connection that is destroyed.
-/

theorem Shut.runCallback {x : Accepted} {v : View} (h : Shut x v) (bind : Task → ServerTask)
    (l : EventLoop ServerTask) (n : Int) (w : WriteResult) {callback : Callback} (hmem : callback ∈ v.todo)
    : ∃ c' l' notices, x.conn.runCallback bind l n w callback = some (c', l', notices)
        ∧ c'.channel = x.conn.channel ∧ l'.poller = l.poller := by
  cases callback with
  | read => exact absurd hmem h.read
  | write =>
    have hwriting := TcpConnection.Life.not_isWriting_of_none h.events
    simp only [TcpConnection.runCallback, TcpConnection.handleWrite_of_not_isWriting _ hwriting, Option.map_some]
    exact ⟨_, _, _, rfl, rfl, rfl⟩
  | close => exact absurd hmem h.close
  | error => exact ⟨_, _, _, rfl, rfl, rfl⟩

theorem Stage.runTask {i : Nat} {x : Accepted} {v : View} {task : Task}
    (h : Stage i x { v with tasks := task :: v.tasks }) (hmem : .connectDestroyed ∈ x.log)
    (bind : Task → ServerTask) (l : EventLoop ServerTask) (message : List UInt8) (w : WriteResult)
    : ∃ c' l' notices, x.conn.runTask bind l message w task = some (c', l', notices)
        ∧ c'.channel = x.conn.channel ∧ l'.poller = l.poller ∧ task ≠ .connectDestroyed := by
  cases h with
  | accepted log => simp [log] at hmem
  | established lived | closed lived | removed lived => simp [lived.mem] at hmem
  | destroyed _ shut _ destroyed =>
    cases task with
    | connectEstablished =>
      have hnone := shut.established
      simp at hnone
    | connectDestroyed => simp at destroyed
    | forceCloseInLoop =>
      have hclosed : ¬(x.conn.state_ = .kConnected ∨ x.conn.state_ = .kDisconnecting) := by
        simp [shut.state_]
      simp only [TcpConnection.runTask, TcpConnection.forceCloseInLoop, if_neg hclosed]
      exact ⟨_, _, _, rfl, rfl, rfl, by simp⟩
    | own f =>
      cases f with
      | sendInLoop =>
        simp only [TcpConnection.runTask, TcpConnection.sendInLoop_of_disconnected _ shut.state_, Option.map_some]
        exact ⟨_, _, _, rfl, rfl, rfl, by simp⟩
      | shutdownInLoop =>
        refine ⟨_, _, _, rfl, ?_, rfl, by simp⟩
        unfold TcpConnection.shutdownInLoop
        split <;> rfl
      | writeCompleteCallback | highWaterMarkCallback => exact ⟨_, _, _, rfl, rfl, rfl, by simp⟩

-- a connection is open between `connectEstablished` and `handleClose`
def Accepted.IsOpen (x : Accepted) : Prop :=
  .connectEstablished ∈ x.log ∧ .handleClose ∉ x.log

theorem Stage.isOpen_iff {i : Nat} {x : Accepted} {v : View} (h : Stage i x v)
    : x.IsOpen ↔ x.conn.channel.index = .kAdded ∧ .connectDestroyed ∉ x.log := by
  unfold Accepted.IsOpen
  cases h with
  | accepted log _ index => simp [log, index]
  | established lived _ _ registered => simp [lived.mem, registered.1]
  | closed lived _ _ index | removed lived _ _ index => simp [lived.mem, index]
  | destroyed lived => simp [lived.mem]

namespace ServerLoops

variable {others : Nat → Addr → Option Channel} {s s₀ s' : ServerLoops} {i k : Nat} {x : Accepted}

/-
The steps.
-/

theorem Registry.callback (h : s.Registry others) (hinv : s.Inv) {callback : Callback} {todo : List (Nat × Callback)}
    (htodo : (s.loops k).todo = (i, callback) :: todo) (n : Int) (w : WriteResult)
    : ∃ s', s.callback k n w = some s' ∧ s'.Registry others := by
  obtain ⟨x, hx, rfl⟩ := hinv.todo k (i, callback) (by simp [htodo])
  have hpopped : (s.setTodo x.loop_ todo).Wired := hinv.popTodo htodo
  have h₁ : (s.setTodo x.loop_ todo).Registry others := by
    refine h.congr ?_ rfl
    intro m
    simp only [setTodo, Function.update_apply]
    split
    . next heq => rw [heq]
    . rfl
  have hx₁ : (s.setTodo x.loop_ todo).conns i = some x := hx
  simp only [ServerLoops.callback, htodo, hx₁, Option.bind_some]
  by_cases hlive : .connectDestroyed ∈ x.log
  . have hshut := (hinv.staged i x hx).shut_of_destroyed hlive
    have hmem : callback ∈ (s.view i x).todo := by
      simp [view, todoOf, htodo]
    obtain ⟨c', l', notices, hrun, hchannel, hpoller⟩ :=
      hshut.runCallback (.conn i) ((s.setTodo x.loop_ todo).loops x.loop_).loop n w hmem
    rw [hrun]
    exact ⟨_, rfl, h₁.finish_still hx₁ (by simp) notices hchannel hpoller⟩
  . obtain ⟨c', l', notices, hrun, htracked⟩ :=
      TcpConnection.tracked_runCallback (.conn i) n w callback (h₁.reflects hpopped hx₁ hlive)
    rw [hrun]
    exact ⟨_, rfl, h₁.finish hpopped hx₁ hlive notices htracked (by simp)⟩

theorem Registry.runFunctor (h : s.Registry others) (hinv : s.Inv) {cb : ServerTask} {functors : List ServerTask}
    (hfunctors : (s.loops k).loop.functors = cb :: functors) (message : List UInt8) (w : WriteResult)
    : ∃ s', s.runFunctor k message w = some s' ∧ s'.Registry others := by
  have hpopped : (s.setFunctors k functors).Wired := hinv.popFunctor hfunctors
  have h₁ : (s.setFunctors k functors).Registry others := by
    refine h.congr ?_ rfl
    intro m
    simp only [setFunctors, loop_setLoop]
    split
    . next heq => rw [heq]
    . rfl
  simp only [ServerLoops.runFunctor, hfunctors]
  cases cb with
  | removeConnectionInLoop i => exact ⟨_, rfl, h₁.removeConnectionInLoop i⟩
  | conn i task =>
    obtain ⟨x, hx, rfl⟩ := hinv.conn k i task (by simp [queueOf, hfunctors])
    have hx₁ : (s.setFunctors x.loop_ functors).conns i = some x := hx
    simp only [hx₁, Option.bind_some]
    by_cases hlive : .connectDestroyed ∈ x.log
    . have hstage := hinv.staged i x hx
      rw [view_popTask rfl hfunctors] at hstage
      obtain ⟨c', l', notices, hrun, hchannel, hpoller, htask⟩ :=
        hstage.runTask hlive (.conn i) ((s.setFunctors x.loop_ functors).loops x.loop_).loop message w
      have hevents : .connectDestroyed ∉ taskEvents task := by
        cases task <;> simp_all [taskEvents]
      rw [hrun]
      exact ⟨_, rfl, h₁.finish_still hx₁ hevents notices hchannel hpoller⟩
    . obtain ⟨c', l', notices, hrun, htracked, hgone⟩ :=
        TcpConnection.tracked_runTask (.conn i) message w task (h₁.reflects hpopped hx₁ hlive)
      have hevents : .connectDestroyed ∈ taskEvents task → task = .connectDestroyed := by
        cases task <;> simp [taskEvents]
      rw [hrun]
      exact ⟨_, rfl, h₁.finish hpopped hx₁ hlive notices htracked fun hmem => hgone (hevents hmem)⟩

theorem Registry.insertConnection (hs₀ : s₀.Prepared others) (h : s.Registry others) (hwired : s.Wired)
    {sockfd : Fd} (highWaterMark : Bool) (hmax : s.server.nextConnId_ < INT_MAX)
    (habsent : (s.loops s.server.threadPool_.getNextLoop.1).loop.poller.epoll sockfd = none)
    : (s.insertConnection (s.accepted sockfd highWaterMark)).Registry others := by
  have hfresh : s.conns s.server.nextConnId_ = none := by
    rw [Option.eq_none_iff_forall_ne_some]
    exact fun x hx => Nat.lt_irrefl _ (hwired.fresh _ x hx)
  have hother : ∀ k, others k s.server.nextConnId_ = none := by
    intro k
    rw [Option.eq_none_iff_forall_ne_some]
    exact fun d hd => absurd (hs₀.addr k _ d hd) (by omega)
  have hconns : ∀ j, (s.insertConnection (s.accepted sockfd highWaterMark)).conns j =
      if j = s.server.nextConnId_ then some (s.accepted sockfd highWaterMark) else s.conns j := by
    intro j
    exact conns_setConn ..
  refine ⟨?_, ?_⟩
  . intro k
    have htable : (s.insertConnection (s.accepted sockfd highWaterMark)).table others k =
        { s.table others k with
            channels := Function.update (s.table others k).channels s.server.nextConnId_
              (if s.server.threadPool_.getNextLoop.1 = k then
                some (Channel.new s.server.nextConnId_ sockfd [.read, .write, .close, .error])
              else
                none) } := by
      simp only [table, ChannelTable.mk.injEq]
      refine ⟨rfl, ?_⟩
      funext addr
      by_cases heq : addr = s.server.nextConnId_
      . subst heq
        rw [hconns, if_pos rfl, Function.update_self]
        simp [Accepted.channel?, accepted, TcpConnection.new, TcpConnection.setCallbacks]
      . rw [hconns, if_neg heq, Function.update_of_ne heq]
    have hnone : (s.table others k).channels s.server.nextConnId_ = none := by
      simp only [table, hfresh, hother]
    rw [htable]
    split
    . exact (h.inv k).new (by simp [hnone]) sockfd _
    . rw [← hnone, Function.update_eq_self]
      exact h.inv k
  . intro j y addr d hy hlive hd
    rw [hconns] at hy
    split at hy
    . simp only [Option.some.injEq] at hy
      subst hy
      have haddr := hs₀.addr _ addr d hd
      have hchannel : (s.table others s.server.threadPool_.getNextLoop.1).channels addr = some d := by
        have hnot : s.conns addr = none := by
          rw [Option.eq_none_iff_forall_ne_some]
          intro x hx
          have hlt := hwired.fresh addr x hx
          omega
        simp only [table, hnot]
        exact hd
      have hentry := ((h.inv _).matches.epoll addr d hchannel).mpr (hs₀.added _ addr d hd)
      rintro heq
      have hfd : d.fd = sockfd := heq
      have hnone : (s.table others s.server.threadPool_.getNextLoop.1).poller.epoll d.fd = none := hfd ▸ habsent
      rw [hnone] at hentry
      cases hentry
    . exact h.apart j y addr d hy hlive hd

theorem Registry.newConnection (hs₀ : s₀.Prepared others) (h : s.Registry others) (hwired : s.Wired)
    {sockfd : Fd} (highWaterMark : Bool) (hmax : s.server.nextConnId_ < INT_MAX) (hfree : s.isFree sockfd = true)
    (habsent : (s.loops s.server.threadPool_.getNextLoop.1).loop.poller.epoll sockfd = none)
    : ∃ s', s.newConnection sockfd highWaterMark = some s' ∧ s'.Registry others := by
  have hinserted := hwired.insertConnection highWaterMark hmax hfree
  have h₁ := h.insertConnection hs₀ hwired highWaterMark hmax habsent
  have hconn := conns_insertConnection s (s.accepted sockfd highWaterMark)
  have hlive : .connectDestroyed ∉ (s.accepted sockfd highWaterMark).log := by
    simp [accepted]
  simp only [ServerLoops.newConnection]
  split
  . obtain ⟨c', l', notices, hrun, htracked, _⟩ := TcpConnection.tracked_runTask
      (.conn s.server.nextConnId_) [] (.accepted 0) .connectEstablished (h₁.reflects hinserted hconn hlive)
    rw [hrun]
    exact ⟨_, rfl, h₁.finish hinserted hconn hlive notices htracked (by simp)⟩
  . exact ⟨_, rfl, h₁.queueInLoop ..⟩

theorem Registry.send (h : s.Registry others) (hinv : s.Inv) (hx : s.conns i = some x) (isInLoopThread : Bool)
    (message : Addr) (contents : List UInt8) (w : WriteResult)
    : ∃ c' l', x.conn.send (fun f => .conn i (.own f)) isInLoopThread (s.loops x.loop_).loop message contents w
          = some (c', l')
        ∧ (s.put i x c' l').Registry others := by
  by_cases hlive : .connectDestroyed ∈ x.log
  . have hshut := (hinv.staged i x hx).shut_of_destroyed hlive
    have hclosed : x.conn.state_ ≠ .kConnected := by
      simp [hshut.state_]
    refine ⟨x.conn, (s.loops x.loop_).loop, ?_, h.put_still hx Iff.rfl rfl rfl⟩
    rw [TcpConnection.send, if_neg hclosed]
  . obtain ⟨c', l', hsend, htracked⟩ := TcpConnection.tracked_send (fun f => ServerTask.conn i (.own f))
      isInLoopThread message contents w (h.reflects hinv.toWired hx hlive)
    exact ⟨c', l', hsend, h.put hinv.toWired hx hlive htracked fun hmem => absurd hmem hlive⟩

-- what the step takes out is there
def ready (s : ServerLoops) : Label → Bool
  | .handleEvent k => !(s.loops k).active.isEmpty
  | .callback k _ _ => !(s.loops k).todo.isEmpty
  | .runFunctor k _ _ => !(s.loops k).loop.functors.isEmpty
  | _ => true

theorem ready_of_next {a : Label} (hnext : s.next a = some s') : s.ready a = true := by
  cases a with
  | handleEvent k =>
    cases hactive : (s.loops k).active with
    | nil => simp [next, ServerLoops.handleEvent, hactive] at hnext
    | cons => simp [ready, hactive]
  | callback k n w =>
    cases htodo : (s.loops k).todo with
    | nil => simp [next, ServerLoops.callback, htodo] at hnext
    | cons => simp [ready, htodo]
  | runFunctor k message w =>
    cases hfunctors : (s.loops k).loop.functors with
    | nil => simp [next, ServerLoops.runFunctor, hfunctors] at hnext
    | cons => simp [ready, hfunctors]
  | newConnection | poll | swap | endFunctors | send | shutdown | forceClose | destroy | destroyConnection
  | endDestroy => rfl

/--
Every step goes through, and leaves the records in agreement.
-/
theorem Registry.step (hs₀ : s₀.Prepared others) (h : s.Registry others) (hinv : s.Inv)
    (hrunning : s.teardown = .running) {a : Label} (henabled : s.enabled a = true) (hready : s.ready a = true)
    : ∃ s', s.next a = some s' ∧ s'.Registry others := by
  have hloops : ∀ k l, l.loop.poller = (s.loops k).loop.poller →
      Registry others { s with loops := Function.update s.loops k l } := by
    intro k l hpoller
    refine h.congr ?_ rfl
    intro m
    simp only [Function.update_apply]
    split
    . next heq => rw [hpoller, heq]
    . rfl
  cases a with
  | newConnection sockfd highWaterMark =>
    simp only [enabled, Bool.and_eq_true, decide_eq_true_eq, Option.isNone_iff_eq_none] at henabled
    exact h.newConnection hs₀ hinv.toWired highWaterMark henabled.1.1.1.2 henabled.1.1.2 henabled.1.2
  | poll k reports => exact ⟨_, rfl, hloops k _ rfl⟩
  | handleEvent k =>
    cases hactive : (s.loops k).active with
    | nil => simp [ready, hactive] at hready
    | cons report active =>
      obtain ⟨x, hx, _⟩ := hinv.active k report (by simp [hactive])
      simp only [next, ServerLoops.handleEvent, hactive, hx, Option.map_some]
      exact ⟨_, rfl, hloops k _ rfl⟩
  | callback k n w =>
    cases htodo : (s.loops k).todo with
    | nil => simp [ready, htodo] at hready
    | cons report todo => exact h.callback hinv htodo n w
  | swap k =>
    refine ⟨_, rfl, ?_⟩
    rw [swap_eq]
    exact hloops k _ rfl
  | runFunctor k message w =>
    cases hfunctors : (s.loops k).loop.functors with
    | nil => simp [ready, hfunctors] at hready
    | cons cb functors => exact h.runFunctor hinv hfunctors message w
  | endFunctors k => exact ⟨_, rfl, hloops k _ rfl⟩
  | send i isInLoopThread message contents w =>
    simp only [enabled, Bool.and_eq_true] at henabled
    obtain ⟨x, hx⟩ := Option.isSome_iff_exists.mp henabled.1
    obtain ⟨c', l', hsend, hput⟩ := h.send hinv hx isInLoopThread message contents w
    simp only [next, hx, Option.bind_some, hsend, Option.map_some]
    exact ⟨_, rfl, hput⟩
  | shutdown i isInLoopThread =>
    obtain ⟨x, hx⟩ := Option.isSome_iff_exists.mp henabled
    obtain ⟨c', l', hshutdown, hchannel, hpoller, _⟩ := TcpConnection.shutdown_spec
      (fun f => ServerTask.conn i (.own f)) isInLoopThread x.conn (s.loops x.loop_).loop
    simp only [next, hx, Option.map_some, hshutdown]
    exact ⟨_, rfl, h.put_still hx Iff.rfl hchannel hpoller⟩
  | forceClose i isInLoopThread =>
    obtain ⟨x, hx⟩ := Option.isSome_iff_exists.mp henabled
    obtain ⟨c', l', hforceClose, hchannel, hpoller, _⟩ := TcpConnection.forceClose_spec
      (ServerTask.conn i) isInLoopThread x.conn (s.loops x.loop_).loop
    simp only [next, hx, Option.map_some, hforceClose]
    exact ⟨_, rfl, h.put_still hx Iff.rfl hchannel hpoller⟩
  | destroy => exact ⟨_, rfl, h.congr (fun _ => rfl) rfl⟩
  | destroyConnection i | endDestroy => simp [enabled, hrunning] at henabled

theorem Prepared.registry (hs₀ : s₀.Prepared others) : s₀.Registry others := by
  have hconns := hs₀.started.2.1
  refine ⟨?_, ?_⟩
  . intro k
    have htable : s₀.table others k = { poller := (s₀.loops k).loop.poller, channels := others k } := by
      simp only [table, hconns]
    rw [htable]
    exact ChannelTable.inv_reachable (hs₀.registered k)
  . intro i x _ _ hx
    rw [hconns i] at hx
    cases hx

theorem registry_reachable (hs₀ : s₀.Prepared others) (hs : (system.startingAt s₀).Reachable s)
    (hrunning : s.teardown = .running) : s.Inv ∧ s.Registry others := by
  have hboth : system.Reachable s ∧ (s.teardown = .running → s.Registry others) := by
    apply hs.invariant fun s => system.Reachable s ∧ (s.teardown = .running → s.Registry others)
    . rintro _ rfl
      exact ⟨.init hs₀.started, fun _ => hs₀.registry⟩
    . rintro s a s' ⟨hreachable, hregistry⟩ hstep
      have hstep : system.step s a = some s' := hstep
      refine ⟨hreachable.step trivial hstep, ?_⟩
      intro hrunning'
      have hrunning := running_of_step hstep hrunning'
      obtain ⟨henabled, hnext⟩ := LTS.guarded_step.mp hstep
      obtain ⟨s₁, hnext₁, hregistry₁⟩ := (hregistry hrunning).step hs₀ (inv_reachable hreachable hrunning) hrunning
        henabled (ready_of_next hnext)
      rw [hnext, Option.some.injEq] at hnext₁
      exact hnext₁ ▸ hregistry₁
  exact ⟨inv_reachable hboth.1 hrunning, hboth.2 hrunning⟩

-- the channel of the wakeup descriptor of a loop
def wakeup : ChannelTable :=
  (ChannelTable.system.run .empty [.new INT_MAX 3 [.read], .enableReading INT_MAX]).get rfl

-- the loops have been constructed
def prepared (loops : Nat) : ServerLoops :=
  { started loops with loops := fun _ => ⟨(EventLoop.new false 3 INT_MAX).get rfl, .events, [], []⟩ }

theorem prepared_init (loops : Nat) : (prepared loops).Prepared fun _ => wakeup.channels := by
  have hempty : ChannelTable.empty.Only INT_MAX := fun _ _ => rfl
  have hrun : ChannelTable.system.run .empty [.new INT_MAX 3 [.read], .enableReading INT_MAX] = some wakeup := rfl
  have hreachable : ChannelTable.system.ReachableBy ChannelTable.CallersObey wakeup :=
    hempty.reachable (by simp [ChannelTable.Label.addr]) (.init rfl) hrun
  have hone : ∀ addr d, wakeup.channels addr = some d → addr = INT_MAX ∧ d.index = .kAdded := by
    intro addr d hd
    by_cases heq : addr = INT_MAX
    . subst heq
      cases hd
      exact ⟨rfl, rfl⟩
    . cases (Function.update_of_ne heq ..).symm.trans ((Function.update_of_ne heq ..).symm.trans hd)
  refine ⟨?_, fun _ => hreachable, fun _ addr d hd => (hone addr d hd).2, fun _ addr d hd => ?_⟩
  . exact ⟨⟨_, _, _, _, rfl⟩, fun _ => rfl, fun _ => ⟨rfl, rfl, rfl, rfl⟩, rfl, rfl⟩
  . rw [(hone addr d hd).1]

/--
A loop watches the connections on it that are open, each with the mask of its channel, and the channels that it had at
the start, and nothing else. No two channels are known to it under one descriptor, and its map and the interest
set are those that the indices and the masks tell.
-/
theorem watches_open (others : Nat → Addr → Option Channel) (s₀ s : ServerLoops) (hs₀ : s₀.Prepared others)
    (hs : (system.startingAt s₀).Reachable s) (hrunning : s.teardown = .running) (k : Nat)
    : (∀ fd mask addr, (s.loops k).loop.poller.epoll fd = some (mask, addr)
          ↔ (∃ x, s.conns addr = some x ∧ x.loop_ = k ∧ x.IsOpen ∧ x.conn.channel.fd = fd
              ∧ x.conn.channel.events = mask)
            ∨ ∃ d, others k addr = some d ∧ d.fd = fd ∧ d.events = mask)
        ∧ (s.table others k).OnePerFd ∧ (s.table others k).Matches := by
  obtain ⟨hinv, hregistry⟩ := registry_reachable hs₀ hs hrunning
  have htable := hregistry.inv k
  refine ⟨?_, htable.one, htable.matches⟩
  intro fd mask addr
  constructor
  . intro hentry
    obtain ⟨c, hc, hfd, hevents, hindex⟩ := ChannelTable.Inv.of_entry htable hentry
    simp only [table] at hc
    split at hc
    . next x hx =>
      simp only [Accepted.channel?, Option.ite_none_right_eq_some, Option.some.injEq] at hc
      obtain ⟨⟨hloop, hlive⟩, rfl⟩ := hc
      exact .inl ⟨x, hx, hloop, (hinv.staged addr x hx).isOpen_iff.mpr ⟨hindex, hlive⟩, hfd, hevents⟩
    . exact .inr ⟨c, hc, hfd, hevents⟩
  . rintro (⟨x, hx, rfl, hopen, rfl, rfl⟩ | ⟨d, hd, rfl, rfl⟩)
    . obtain ⟨hindex, hlive⟩ := (hinv.staged addr x hx).isOpen_iff.mp hopen
      exact (htable.matches.epoll addr _ (channels_table others hx hlive)).mpr hindex
    . have hnone : s.conns addr = none := by
        rw [Option.eq_none_iff_forall_ne_some]
        intro x hx
        have haddr := hs₀.addr k addr d hd
        have hlt := hinv.fresh addr x hx
        have hmax := hinv.nextConnId_
        omega
      have hchannel : (s.table others k).channels addr = some d := by
        simp only [table, hnone]
        exact hd
      exact (htable.matches.epoll addr d hchannel).mpr (hs₀.added k addr d hd)

-- one connection is closed, and the other one is open
theorem watches_open_closedOnBothLoops
    : ∃ s, (system.startingAt (prepared 2)).run (prepared 2) (closedOnBothLoops.take 13) = some s
        ∧ (s.loops 2).loop.poller.epoll 8 = some (Channel.kReadEvent, 2)
        ∧ ∃ x, s.conns 2 = some x ∧ x.IsOpen := by
  obtain ⟨s, hrun⟩ : ∃ s, (system.startingAt (prepared 2)).run (prepared 2) (closedOnBothLoops.take 13) = some s :=
    ⟨_, rfl⟩
  have hwatched : ((system.startingAt (prepared 2)).run (prepared 2) (closedOnBothLoops.take 13)).map
      (fun s => (s.teardown, (s.loops 2).loop.poller.epoll 8)) = some (.running, some (Channel.kReadEvent, 2)) := rfl
  simp only [hrun, Option.map_some, Option.some.injEq, Prod.mk.injEq] at hwatched
  obtain ⟨hrunning, hentry⟩ := hwatched
  have hwatches := watches_open _ _ s (prepared_init 2) (LTS.Reachable.run (.init rfl) hrun) hrunning 2
  refine ⟨s, hrun, hentry, ?_⟩
  obtain ⟨x, hx, _, hopen, _⟩ | ⟨d, hd, _⟩ := (hwatches.1 8 Channel.kReadEvent 2).mp hentry
  . exact ⟨x, hx, hopen⟩
  . exact absurd ((prepared_init 2).addr 2 2 d hd) (by decide)

/--
As long as the server exists no step of its loops and of its users comes to `LOG_FATAL`.
-/
theorem never_fatal (others : Nat → Addr → Option Channel) (s₀ s : ServerLoops) (hs₀ : s₀.Prepared others)
    (hs : (system.startingAt s₀).Reachable s) (hrunning : s.teardown = .running) (a : Label)
    (henabled : s.enabled a = true) (hready : s.ready a = true) : (system.step s a).isSome = true := by
  obtain ⟨hinv, hregistry⟩ := registry_reachable hs₀ hs hrunning
  obtain ⟨s', hnext, _⟩ := hregistry.step hs₀ hinv hrunning henabled hready
  exact Option.isSome_of_eq_some (LTS.guarded_step.mpr ⟨henabled, hnext⟩)

-- `forceCloseInLoop` takes the other one out of the interest set
theorem never_fatal_closedOnBothLoops
    : ∃ s, (system.startingAt (prepared 2)).run (prepared 2) (closedOnBothLoops.take 14) = some s
        ∧ (system.step s (.runFunctor 2 [] (.accepted 0))).isSome = true := by
  obtain ⟨s, hrun⟩ : ∃ s, (system.startingAt (prepared 2)).run (prepared 2) (closedOnBothLoops.take 14) = some s :=
    ⟨_, rfl⟩
  have hwaits : ((system.startingAt (prepared 2)).run (prepared 2) (closedOnBothLoops.take 14)).map
      (fun s => (s.teardown, s.enabled (.runFunctor 2 [] (.accepted 0)), s.ready (.runFunctor 2 [] (.accepted 0))))
      = some (.running, true, true) := rfl
  simp only [hrun, Option.map_some, Option.some.injEq, Prod.mk.injEq] at hwaits
  obtain ⟨hrunning, henabled, hready⟩ := hwaits
  exact ⟨s, hrun, never_fatal _ _ s (prepared_init 2) (LTS.Reachable.run (.init rfl) hrun) hrunning _ henabled hready⟩

end ServerLoops

end TcpServer

end MyMuduo
