import MyMuduo.TcpConnection.Pairing

/-!
This module contains what can still happen to a connection whose `connectDestroyed` has run.
-/

namespace MyMuduo

namespace TcpConnection

namespace Life

-- the callbacks that the server and the user take for the life of the connection
def lifeNotices (s : Life) : List Notice :=
  s.notices.filter fun notice => notice ≠ .messageCallback

-- disconnected, and unknown to the poller
structure Gone (s : Life) : Prop where
  state_ : s.conn.state_ = .kDisconnected
  channels : s.loop.poller.channels s.conn.channel.fd = none
  epoll : s.loop.poller.epoll s.conn.channel.fd = none

/--
The connection is gone, and whatever happens afterwards leaves it so and invokes neither
`connectionCallback_` nor `closeCallback_`: the functors that are still queued, the calls of users that hold
the connection, the server. A close that epoll reported before is not one of these steps.
-/
def Inert (s : Life) : Prop :=
  s.Gone ∧ ∀ s', (system.startingAt s).ReachableBy (fun s a => s.closesLate a = false) s' →
    s'.Gone ∧ s'.lifeNotices = s.lifeNotices

variable {s s' : Life} {c' : TcpConnection} {l' : EventLoop Task} {notices : List Notice}

structure Dead (log : List Notice) (s : Life) : Prop extends Base s, Gone s where
  destroyed : s.destroyed = true
  log : s.lifeNotices = log

theorem lifeNotices_of_quiet (h : ∀ notice ∈ notices, notice = .messageCallback)
    : notices.filter (fun notice => notice ≠ .messageCallback) = [] := by
  apply List.filter_eq_nil_iff.mpr
  intro notice hmem
  simp [h notice hmem]

variable {log : List Notice}

theorem Dead.of_quiet (h : s.Dead log) (hbase : s'.Base)
    (hquiet : Quiet (id ∘ .own) s.conn s.loop s'.conn s'.loop notices)
    (hnotices : s'.notices = s.notices ++ notices) (hdestroyed : s'.destroyed = true) : s'.Dead log := by
  obtain ⟨hchannel, hpoller⟩ := hquiet.closed h.state_ (not_isWriting_of_none (h.closed h.state_))
  refine ⟨hbase, ⟨hquiet.state_.trans h.state_, ?_, ?_⟩, hdestroyed, ?_⟩
  . rw [hchannel, hpoller]
    exact h.channels
  . rw [hchannel, hpoller]
    exact h.epoll
  . rw [lifeNotices, hnotices, List.filter_append, lifeNotices_of_quiet hquiet.notices, List.append_nil]
    exact h.log

theorem Dead.of_destroy (h : s.Dead log) (hbase : s'.Base)
    (hdestroy : s.conn.connectDestroyed s.loop = some (s'.conn, s'.loop, notices))
    (hnotices : s'.notices = s.notices ++ notices) (hdestroyed : s'.destroyed = true) : s'.Dead log := by
  obtain ⟨_, hstate, hfd, hchannels, hepoll, hlist, _⟩ := h.toSound.connectDestroyed hdestroy
  have hnot : s.conn.state_ ≠ .kConnected := by
    simp [h.state_]
  rw [if_neg hnot] at hstate hlist
  rw [← hfd] at hchannels hepoll
  refine ⟨hbase, ⟨hstate.trans h.state_, hchannels, hepoll⟩, hdestroyed, ?_⟩
  rw [lifeNotices, hnotices, hlist, List.append_nil]
  exact h.log

theorem Dead.popped {task : Task} {functors : List Task} (h : s.Dead log)
    (hfunctors : s.loop.functors = task :: functors)
    : Dead log { s with loop := { s.loop with functors := functors } } :=
  ⟨h.toBase.popped hfunctors, ⟨h.state_, h.channels, h.epoll⟩, h.destroyed, h.log⟩

theorem Dead.runFunctor {message : List UInt8} {w : WriteResult} (h : s.Dead log) (hbase : s'.Base)
    (hnext : s.next (.runFunctor message w) = some s') : s'.Dead log := by
  simp only [next] at hnext
  split at hnext
  . cases hnext
  . next task functors hfunctors =>
    simp only [Option.map_eq_some_iff] at hnext
    obtain ⟨⟨conn, loop, notices⟩, hrun, rfl⟩ := hnext
    have hpopped := h.popped hfunctors
    have hopen : task ≠ .connectEstablished := by
      rintro rfl
      apply h.tasks
      rw [queue, hfunctors]
      exact List.mem_cons_self
    have hdestroyed : (s.destroyed || decide (task = .connectDestroyed)) = true := by
      rw [h.destroyed, Bool.true_or]
    obtain ⟨hquiet, _⟩ | ⟨_, hstate, _⟩ | ⟨_, hdestroy⟩ := runTask_cases hrun hopen
    . exact hpopped.of_quiet hbase hquiet rfl hdestroyed
    . -- `forceCloseInLoop` tests the state
      have hdown := h.state_
      obtain hstate | hstate := hstate <;> simp [hstate] at hdown
    . exact hpopped.of_destroy hbase hdestroy rfl hdestroyed

theorem Dead.step {a : Label} (h : s.Dead log) (hok : s.closesLate a = false)
    (hstep : system.step s a = some s') : s'.Dead log := by
  have hbase := h.toBase.step hstep
  obtain ⟨henabled, hnext⟩ := LTS.guarded_step.mp hstep
  cases a with
  | callback n w =>
    simp only [next] at hnext
    split at hnext
    . cases hnext
    . next callback todo htodo =>
      simp only [Option.map_eq_some_iff] at hnext
      obtain ⟨⟨conn, loop, notices⟩, hrun, rfl⟩ := hnext
      obtain hquiet | ⟨hcallback, _⟩ := runCallback_cases hrun
      . exact h.of_quiet hbase hquiet rfl h.destroyed
      . simp only [closesLate, h.destroyed, htodo, List.head?_cons, Option.some.injEq] at hok
        obtain rfl | ⟨rfl, rfl⟩ := hcallback <;> simp at hok
  | runFunctor message w => exact h.runFunctor hbase hnext
  | poll | swap | endFunctors =>
    simp only [next, Option.some.injEq] at hnext
    subst hnext
    exact ⟨hbase, ⟨h.state_, h.channels, h.epoll⟩, h.destroyed, h.log⟩
  | handleEvent =>
    simp only [next, Option.map_eq_some_iff] at hnext
    obtain ⟨revents, _, rfl⟩ := hnext
    exact ⟨hbase, ⟨h.state_, h.channels, h.epoll⟩, h.destroyed, h.log⟩
  | send isInLoopThread message contents w =>
    simp only [next, Option.map_eq_some_iff] at hnext
    obtain ⟨⟨conn, loop⟩, hsend, rfl⟩ := hnext
    exact h.of_quiet hbase (quiet_send hsend) (List.append_nil _).symm h.destroyed
  | shutdown isInLoopThread =>
    simp only [next, Option.some.injEq] at hnext
    subst hnext
    have hnot : s.conn.shutdown .own isInLoopThread s.loop = (s.conn, s.loop) := by
      simp [TcpConnection.shutdown, h.state_]
    simp only [hnot]
    exact h
  | forceClose isInLoopThread =>
    simp only [next, Option.some.injEq] at hnext
    subst hnext
    have hnot : s.conn.forceClose id isInLoopThread s.loop = (s.conn, s.loop) := by
      simp [TcpConnection.forceClose, h.state_]
    simp only [hnot]
    exact h
  | removeConnectionInLoop isInLoopThread =>
    simp only [next, Option.some.injEq] at hnext
    subst hnext
    exact ⟨hbase, ⟨h.state_, by simpa using h.channels, by simpa using h.epoll⟩, h.destroyed, h.log⟩
  | destroyServer isInLoopThread =>
    simp only [next] at hnext
    split at hnext
    . simp only [Option.map_eq_some_iff] at hnext
      obtain ⟨⟨conn, loop, notices⟩, hdestroy, rfl⟩ := hnext
      exact h.of_destroy hbase hdestroy rfl rfl
    . simp only [Option.some.injEq] at hnext
      subst hnext
      exact ⟨hbase, ⟨h.state_, by simpa using h.channels, by simpa using h.epoll⟩, h.destroyed, h.log⟩
  | otherChannels poller =>
    simp only [next, Option.some.injEq] at hnext
    subst hnext
    simp only [enabled, Bool.and_eq_true, decide_eq_true_eq] at henabled
    exact ⟨hbase, ⟨h.state_, henabled.2.trans h.channels, henabled.1.trans h.epoll⟩, h.destroyed, h.log⟩

theorem Dead.inert (h : s.Dead s.lifeNotices) : s.Inert := by
  refine ⟨h.toGone, ?_⟩
  intro s' hs'
  have hdead : s'.Dead s.lifeNotices := by
    apply hs'.invariant (Dead s.lifeNotices)
    . rintro _ rfl
      exact h
    . exact fun _ _ _ hdead hok hstep => hdead.step hok hstep
  exact ⟨hdead.toGone, hdead.log⟩

-- what a step that runs `connectDestroyed` does
theorem connectDestroyed_of_runs {a : Label} (hruns : s.runsDestroyed a = true)
    (hstep : system.step s a = some s')
    : s'.destroyed = true ∧ ∃ loop notices, loop.poller = s.loop.poller
        ∧ s.conn.connectDestroyed loop = some (s'.conn, s'.loop, notices) ∧ s'.notices = s.notices ++ notices := by
  obtain ⟨_, hnext⟩ := LTS.guarded_step.mp hstep
  cases a with
  | runFunctor message w =>
    simp only [runsDestroyed, decide_eq_true_eq] at hruns
    simp only [next] at hnext
    split at hnext
    . cases hnext
    . next task functors hfunctors =>
      rw [hfunctors, List.head?_cons, Option.some.injEq] at hruns
      subst hruns
      simp only [Option.map_eq_some_iff] at hnext
      obtain ⟨⟨conn, loop, notices⟩, hrun, rfl⟩ := hnext
      exact ⟨by simp [told], { s.loop with functors := functors }, notices, rfl, hrun, rfl⟩
  | destroyServer isInLoopThread =>
    simp only [runsDestroyed] at hruns
    simp only [next, hruns, if_true, Option.map_eq_some_iff] at hnext
    obtain ⟨⟨conn, loop, notices⟩, hdestroy, rfl⟩ := hnext
    exact ⟨rfl, s.loop, notices, rfl, hdestroy, rfl⟩
  | _ => cases hruns

/--
`connectDestroyed` makes the connection inert exactly when it was up or already down.
-/
theorem inert_iff {a : Label} (hs : system.Reachable s) (hruns : s.runsDestroyed a = true)
    (hstep : system.step s a = some s') : s'.Inert ↔ s.conn.state_ ≠ .kDisconnecting := by
  have hbase := base_reachable hs
  obtain ⟨hdestroyed, loop, notices, hpoller, hdestroy, _⟩ := connectDestroyed_of_runs hruns hstep
  have hsound : Sound s.conn loop := ⟨hpoller ▸ hbase.synced, hbase.connected, hbase.closed, hbase.open_⟩
  obtain ⟨_, hstate, hfd, hchannels, hepoll, _, _⟩ := hsound.connectDestroyed hdestroy
  constructor
  . intro hinert hdisconnecting
    have hgone := hinert.1.state_
    simp [hstate, hdisconnecting] at hgone
  . intro hnot
    have hdown : s'.conn.state_ = .kDisconnected := by
      have hopen := hbase.open_
      rw [hstate]
      cases hcase : s.conn.state_ <;> simp_all
    rw [← hfd] at hchannels hepoll
    apply Dead.inert
    exact ⟨hbase.step hstep, ⟨hdown, hchannels, hepoll⟩, hdestroyed, rfl⟩

-- the connection has been closed by its peer, and `connectDestroyed` is next
def removed : Life :=
  (system.run established closedByPeer.dropLast).get rfl

def removedDestroyed : Life :=
  (system.step removed (.runFunctor [] (.accepted 0))).get rfl

theorem inert_removedDestroyed : removed.conn.state_ = .kDisconnected ∧ removedDestroyed.Inert := by
  have hrun : system.run established closedByPeer.dropLast = some removed := (Option.some_get _).symm
  have hstep : system.step removed (.runFunctor [] (.accepted 0)) = some removedDestroyed :=
    (Option.some_get _).symm
  refine ⟨rfl, (inert_iff (LTS.Reachable.run (.init established_init) hrun) rfl hstep).mpr ?_⟩
  decide

-- the connection has been shut down by its user, and `connectDestroyed` is next
def shutDown : Life :=
  (system.run established shutDownAndDestroyed.dropLast).get rfl

def shutDownDestroyed : Life :=
  (system.step shutDown (.runFunctor [] (.accepted 0))).get rfl

-- a user that still holds the connection closes it
def forceClosed : Life :=
  (system.run shutDownDestroyed [.forceClose false, .endFunctors, .poll none, .swap,
    .runFunctor [] (.accepted 0)]).get rfl

/--
The channel is in the interest set again, and both callbacks are invoked.
-/
theorem shutDown_not_inert
    : system.Reachable shutDown ∧ shutDown.runsDestroyed (.runFunctor [] (.accepted 0)) = true
        ∧ system.step shutDown (.runFunctor [] (.accepted 0)) = some shutDownDestroyed
        ∧ system.run shutDownDestroyed [.forceClose false, .endFunctors, .poll none, .swap,
            .runFunctor [] (.accepted 0)] = some forceClosed
        ∧ (forceClosed.loop.poller.epoll 7).isSome = true
        ∧ forceClosed.lifeNotices
          = shutDownDestroyed.lifeNotices ++ [.connectionCallback false, .closeCallback]
        ∧ ¬shutDownDestroyed.Inert := by
  have hrun : system.run established shutDownAndDestroyed.dropLast = some shutDown := (Option.some_get _).symm
  refine ⟨LTS.Reachable.run (.init established_init) hrun, rfl, (Option.some_get _).symm,
    (Option.some_get _).symm, rfl, rfl, ?_⟩
  intro hinert
  exact absurd hinert.1.state_ (by decide)

end Life

end TcpConnection

end MyMuduo
