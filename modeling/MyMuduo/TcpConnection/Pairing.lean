import MyMuduo.TcpConnection.Life

/-!
This module contains how often `connectionCallback_` is invoked in the life of a connection.
-/

namespace MyMuduo

namespace TcpConnection

-- what `connectionCallback_` was told
def Notice.connection? : Notice → Option Bool
  | .connectionCallback connected => some connected
  | .messageCallback | .closeCallback => none

namespace Life

def upDown (s : Life) : List Bool :=
  s.notices.filterMap Notice.connection?

-- the step runs `connectDestroyed`
def runsDestroyed (s : Life) : Label → Bool
  | .runFunctor _ _ => s.loop.functors.head? = some .connectDestroyed
  | .destroyServer isInLoopThread => isInLoopThread
  | _ => false

-- the step handles a close, reported before or after, once `connectDestroyed` has run
def closesLate (s : Life) : Label → Bool
  | .callback n _ => s.destroyed && (s.todo.head? = some .close || s.todo.head? = some .read && n = 0)
  | _ => false

def DestroyedInTime (s : Life) (a : Label) : Prop :=
  (s.runsDestroyed a = true → s.conn.state_ ≠ .kDisconnecting) ∧ s.closesLate a = false

instance (s : Life) (a : Label) : Decidable (s.DestroyedInTime a) :=
  inferInstanceAs (Decidable (_ ∧ _))

-- nothing that epoll has reported or may report closes the connection again
structure NoMoreClose (s : Life) : Prop where
  absent : s.loop.poller.epoll s.conn.channel.fd = none
  active : s.active = none
  close : .close ∉ s.todo
  read : .read ∉ s.todo

structure Paired (s : Life) : Prop extends Base s where
  up : s.conn.state_ ≠ .kDisconnected →
    s.upDown = [true] ∧ s.destroyed = false ∧ s.conn.channel.Registered
  down : s.conn.state_ = .kDisconnected → s.upDown = [true, false]
  noMoreClose : s.conn.state_ = .kDisconnected → s.destroyed = false → s.NoMoreClose

theorem upDown_of_quiet {notices : List Notice} (h : ∀ notice ∈ notices, notice = .messageCallback)
    : notices.filterMap Notice.connection? = [] := by
  apply List.filterMap_eq_nil_iff.mpr
  intro notice hmem
  rw [h notice hmem]
  rfl

variable {s s' : Life} {c' : TcpConnection} {l' : EventLoop Task} {notices : List Notice}

/--
A step that changes the state and the log as little as a quiet handler does.
-/
theorem Paired.of_quiet (h : s.Paired) (hbase : s'.Base)
    (hquiet : Quiet (id ∘ .own) s.conn s.loop s'.conn s'.loop notices)
    (hnotices : s'.notices = s.notices ++ notices) (hdestroyed : s'.destroyed = s.destroyed)
    (hactive : s.active = none → s'.active = none) (htodo : ∀ callback ∈ s'.todo, callback ∈ s.todo)
    : s'.Paired := by
  have hupDown : s'.upDown = s.upDown := by
    rw [upDown, hnotices, List.filterMap_append, upDown_of_quiet hquiet.notices, List.append_nil]
    rfl
  refine ⟨hbase, ?_, ?_, ?_⟩
  . intro hstate
    rw [hquiet.state_] at hstate
    obtain ⟨hup, halive, hregistered⟩ := h.up hstate
    exact ⟨hupDown.trans hup, hdestroyed.trans halive, hquiet.channel.registered hregistered⟩
  . intro hstate
    rw [hquiet.state_] at hstate
    exact hupDown.trans (h.down hstate)
  . intro hstate halive
    rw [hquiet.state_] at hstate
    obtain ⟨habsent, hnone, hclose, hread⟩ := h.noMoreClose hstate (hdestroyed ▸ halive)
    obtain ⟨hchannel, hpoller⟩ := hquiet.closed hstate (not_isWriting_of_none (h.closed hstate))
    refine ⟨?_, hactive hnone, fun hmem => hclose (htodo _ hmem), fun hmem => hread (htodo _ hmem)⟩
    rw [hchannel, hpoller]
    exact habsent

-- `handleClose` of a connection that is up
theorem Paired.of_close (h : s.Paired) (hopen : s.conn.state_ ≠ .kDisconnected) (hbase : s'.Base)
    (hclose : s.conn.handleClose s.loop = some (s'.conn, s'.loop, notices))
    (hnotices : s'.notices = s.notices ++ notices) (hactive : s'.active = none)
    (hnotClose : .close ∉ s'.todo) (hnotRead : .read ∉ s'.todo) : s'.Paired := by
  obtain ⟨hup, _, hregistered⟩ := h.up hopen
  obtain ⟨_, _, heq, hstate, _, _, hfd, _, habsent, _, _⟩ := handleClose_of_registered h.synced hregistered.1
  rw [hclose, Option.some.injEq, Prod.mk.injEq, Prod.mk.injEq] at heq
  obtain ⟨hconn, hloop, hlist⟩ := heq
  have hstate' : s'.conn.state_ = .kDisconnected := by
    rw [hconn]
    exact hstate
  have hupDown : s'.upDown = [true, false] := by
    rw [upDown, hnotices, List.filterMap_append, hlist]
    exact congrArg (· ++ _) hup
  refine ⟨hbase, fun hne => absurd hstate' hne, fun _ => hupDown, ?_⟩
  intro _ _
  refine ⟨?_, hactive, hnotClose, hnotRead⟩
  rw [hconn, hloop, hfd]
  exact habsent

theorem Paired.of_destroy (h : s.Paired) (hnot : s.conn.state_ ≠ .kDisconnecting) (hbase : s'.Base)
    (hdestroy : s.conn.connectDestroyed s.loop = some (s'.conn, s'.loop, notices))
    (hnotices : s'.notices = s.notices ++ notices) (hdestroyed : s'.destroyed = true) : s'.Paired := by
  obtain ⟨_, hstate, _, _, _, hlist, _⟩ := h.toSound.connectDestroyed hdestroy
  have hboth : s'.conn.state_ = .kDisconnected ∧ s'.upDown = [true, false] := by
    rw [upDown, hnotices, List.filterMap_append, hlist]
    by_cases hup : s.conn.state_ = .kConnected
    . rw [if_pos hup] at hstate ⊢
      refine ⟨hstate, congrArg (· ++ _) (h.up ?_).1⟩
      simp [hup]
    . rw [if_neg hup] at hstate ⊢
      have hopen := h.open_
      have hdown : s.conn.state_ = .kDisconnected := by
        cases hcase : s.conn.state_ <;> simp_all
      exact ⟨hstate.trans hdown, congrArg (· ++ []) (h.down hdown)⟩
  exact ⟨hbase, fun hne => absurd hboth.1 hne, fun _ => hboth.2,
    fun _ halive => absurd (hdestroyed.symm.trans halive) (by simp)⟩

-- a functor is taken out of the batch
theorem Base.popped {task : Task} {functors : List Task} (h : s.Base) (hfunctors : s.loop.functors = task :: functors)
    : Base { s with loop := { s.loop with functors := functors } } := by
  refine ⟨⟨h.synced, h.connected, h.closed, h.open_⟩, ?_, h.idle, h.handled, h.order, h.apart⟩
  have htasks := h.tasks
  rw [queue, hfunctors] at htasks
  exact List.not_mem_of_not_mem_cons htasks

theorem Paired.popped {task : Task} {functors : List Task} (h : s.Paired)
    (hfunctors : s.loop.functors = task :: functors)
    : Paired { s with loop := { s.loop with functors := functors } } :=
  ⟨h.toBase.popped hfunctors, h.up, h.down, fun hstate halive =>
    ⟨(h.noMoreClose hstate halive).absent, (h.noMoreClose hstate halive).active,
      (h.noMoreClose hstate halive).close, (h.noMoreClose hstate halive).read⟩⟩

-- behind the callback that closes the connection there is none that closes it again
theorem not_mem_behind_close {callback : Callback} {todo : List Callback}
    (horder : (callback :: todo).Sublist [.close, .error, .read, .write])
    (hapart : .close ∈ callback :: todo → .read ∉ callback :: todo)
    (hcallback : callback = .close ∨ callback = .read) : .close ∉ todo ∧ .read ∉ todo := by
  have hnodup : (callback :: todo).Nodup := horder.nodup (by decide)
  have hnotMem : callback ∉ todo := (List.nodup_cons.mp hnodup).1
  obtain rfl | rfl := hcallback
  . have hread := hapart List.mem_cons_self
    exact ⟨hnotMem, List.not_mem_of_not_mem_cons hread⟩
  . refine ⟨?_, hnotMem⟩
    intro hclose
    exact hapart (List.mem_cons_of_mem _ hclose) List.mem_cons_self

theorem Paired.callback {n : Int} {w : WriteResult} (h : s.Paired) (hbase : s'.Base)
    (hok : s.DestroyedInTime (.callback n w)) (hnext : s.next (.callback n w) = some s') : s'.Paired := by
  simp only [next] at hnext
  split at hnext
  . cases hnext
  . next callback todo htodo =>
    simp only [Option.map_eq_some_iff] at hnext
    obtain ⟨⟨conn, loop, notices⟩, hrun, rfl⟩ := hnext
    have hactive := h.handled (by simp [htodo])
    obtain hquiet | ⟨hcallback, hclose⟩ := runCallback_cases hrun
    . refine h.of_quiet hbase hquiet rfl rfl (fun _ => hactive) ?_
      intro callback' hmem
      rw [htodo]
      exact List.mem_cons_of_mem _ hmem
    . have halive : s.destroyed = false := by
        have hlate := hok.2
        simp only [closesLate, htodo, List.head?_cons, Option.some.injEq] at hlate
        obtain rfl | ⟨rfl, rfl⟩ := hcallback <;> simpa using hlate
      have hkind : callback = .close ∨ callback = .read := by
        obtain heq | ⟨heq, _⟩ := hcallback
        . exact .inl heq
        . exact .inr heq
      have hopen : s.conn.state_ ≠ .kDisconnected := by
        intro hdown
        have hnoMore := h.noMoreClose hdown halive
        obtain rfl | rfl := hkind
        . exact hnoMore.close (htodo ▸ List.mem_cons_self)
        . exact hnoMore.read (htodo ▸ List.mem_cons_self)
      obtain ⟨hnotClose, hnotRead⟩ :=
        not_mem_behind_close (htodo ▸ h.order) (htodo ▸ h.apart) hkind
      exact h.of_close hopen hbase hclose rfl hactive hnotClose hnotRead

theorem Paired.runFunctor {message : List UInt8} {w : WriteResult} (h : s.Paired) (hbase : s'.Base)
    (hphase : s.phase = .functors) (hok : s.DestroyedInTime (.runFunctor message w))
    (hnext : s.next (.runFunctor message w) = some s') : s'.Paired := by
  simp only [next] at hnext
  split at hnext
  . cases hnext
  . next task functors hfunctors =>
    simp only [Option.map_eq_some_iff] at hnext
    obtain ⟨⟨conn, loop, notices⟩, hrun, rfl⟩ := hnext
    have hpopped := h.popped hfunctors
    have hopen : task ≠ .connectEstablished := by
      rintro rfl
      apply h.tasks
      rw [queue, hfunctors]
      exact List.mem_cons_self
    obtain ⟨hactive, htodo⟩ := h.idle (by simp [hphase])
    obtain ⟨hquiet, hne⟩ | ⟨rfl, hstate, hclose⟩ | ⟨rfl, hdestroy⟩ := runTask_cases hrun hopen
    . have hdestroyed : (s.destroyed || decide (task = .connectDestroyed)) = s.destroyed := by
        simp [hne]
      exact hpopped.of_quiet hbase hquiet rfl hdestroyed id fun _ hmem => hmem
    . have hup : s.conn.state_ ≠ .kDisconnected := by
        obtain hstate | hstate := hstate <;> simp [hstate]
      refine hpopped.of_close hup hbase hclose rfl hactive ?_ ?_
      . change .close ∉ s.todo
        simp [htodo]
      . change .read ∉ s.todo
        simp [htodo]
    . have hnot := hok.1 (by simp [runsDestroyed, hfunctors])
      exact hpopped.of_destroy hnot hbase hdestroy rfl (by simp [told])

/--
What a step keeps that calls no function of the connection.
-/
structure LeftAlone (s s' : Life) : Prop where
  conn : s'.conn = s.conn
  notices : s'.notices = s.notices
  destroyed : s'.destroyed = s.destroyed
  noMoreClose : s.NoMoreClose → s'.NoMoreClose

theorem leftAlone_of_step {a : Label} (ha : a.leavesAlone = true) (hstep : system.step s a = some s')
    : LeftAlone s s' := by
  obtain ⟨henabled, hnext⟩ := LTS.guarded_step.mp hstep
  cases a with
  | callback | runFunctor | send | shutdown | forceClose => cases ha
  | poll revents =>
    simp only [next, Option.some.injEq] at hnext
    subst hnext
    simp only [enabled, Bool.and_eq_true] at henabled
    refine ⟨rfl, rfl, rfl, ?_⟩
    rintro ⟨habsent, _, hclose, hread⟩
    refine ⟨habsent, ?_, hclose, hread⟩
    cases revents with
    | none => rfl
    | some revents => simp [reports, habsent] at henabled
  | handleEvent =>
    simp only [next, Option.map_eq_some_iff] at hnext
    obtain ⟨revents, hactive, rfl⟩ := hnext
    refine ⟨rfl, rfl, rfl, ?_⟩
    rintro ⟨_, hnone, _, _⟩
    rw [hactive] at hnone
    cases hnone
  | swap | endFunctors =>
    simp only [next, Option.some.injEq] at hnext
    subst hnext
    exact ⟨rfl, rfl, rfl, fun h => ⟨h.absent, h.active, h.close, h.read⟩⟩
  | removeConnectionInLoop isInLoopThread =>
    simp only [next, Option.some.injEq] at hnext
    subst hnext
    exact ⟨rfl, rfl, rfl, fun h => ⟨by simpa using h.absent, h.active, h.close, h.read⟩⟩
  | destroyServer isInLoopThread =>
    cases isInLoopThread with
    | true => cases ha
    | false =>
      simp only [next, Bool.false_eq_true, if_false, Option.some.injEq] at hnext
      subst hnext
      exact ⟨rfl, rfl, rfl, fun h => ⟨by simpa using h.absent, h.active, h.close, h.read⟩⟩
  | otherChannels poller =>
    simp only [next, Option.some.injEq] at hnext
    subst hnext
    simp only [enabled, Bool.and_eq_true, decide_eq_true_eq] at henabled
    exact ⟨rfl, rfl, rfl, fun h => ⟨henabled.1.trans h.absent, h.active, h.close, h.read⟩⟩

theorem Paired.of_leftAlone (h : s.Paired) (hbase : s'.Base) (hleft : LeftAlone s s') : s'.Paired := by
  have hupDown : s'.upDown = s.upDown := by
    rw [upDown, hleft.notices]
    rfl
  constructor
  . exact hbase
  all_goals
    rw [hleft.conn]
  . rw [hupDown, hleft.destroyed]
    exact h.up
  . rw [hupDown]
    exact h.down
  . intro hstate halive
    exact hleft.noMoreClose (h.noMoreClose hstate (hleft.destroyed.symm.trans halive))

theorem Paired.step {a : Label} (h : s.Paired) (hok : s.DestroyedInTime a)
    (hstep : system.step s a = some s') : s'.Paired := by
  have hbase := h.toBase.step hstep
  obtain ⟨henabled, hnext⟩ := LTS.guarded_step.mp hstep
  cases a with
  | callback n w => exact h.callback hbase hok hnext
  | runFunctor message w =>
    simp only [enabled, Bool.and_eq_true, decide_eq_true_eq] at henabled
    exact h.runFunctor hbase henabled.1 hok hnext
  | send isInLoopThread message contents w =>
    simp only [next, Option.map_eq_some_iff] at hnext
    obtain ⟨⟨conn, loop⟩, hsend, rfl⟩ := hnext
    exact h.of_quiet hbase (quiet_send hsend) (List.append_nil _).symm rfl id fun _ hmem => hmem
  | shutdown isInLoopThread =>
    simp only [next, Option.some.injEq] at hnext
    subst hnext
    obtain ⟨_, _, heq, hchannel, hpoller, _, _, hstate⟩ :=
      shutdown_spec Task.own isInLoopThread s.conn s.loop
    simp only [heq] at hbase ⊢
    refine ⟨hbase, ?_, ?_, ?_⟩
    . intro hne
      have hopen : s.conn.state_ ≠ .kDisconnected := by
        intro hdown
        apply hne
        simp [hstate, hdown]
      obtain ⟨hup, halive, hregistered⟩ := h.up hopen
      exact ⟨hup, halive, hchannel.symm ▸ hregistered⟩
    . intro hdown
      apply h.down
      simp only [hstate] at hdown
      split at hdown
      . cases hdown
      . exact hdown
    . intro hdown halive
      have hstate' : s.conn.state_ = .kDisconnected := by
        simp only [hstate] at hdown
        split at hdown
        . cases hdown
        . exact hdown
      obtain ⟨habsent, hactive, hclose, hread⟩ := h.noMoreClose hstate' halive
      refine ⟨?_, hactive, hclose, hread⟩
      dsimp only
      rw [hchannel, hpoller]
      exact habsent
  | forceClose isInLoopThread =>
    simp only [next, Option.some.injEq] at hnext
    subst hnext
    obtain ⟨_, _, heq, hchannel, _, _, hopen, hclosed⟩ := forceClose_spec id isInLoopThread s.conn s.loop
    simp only [heq] at hbase ⊢
    by_cases hstate : s.conn.state_ = .kConnected ∨ s.conn.state_ = .kDisconnecting
    . have hstate' := (hopen hstate).2
      have hup : s.conn.state_ ≠ .kDisconnected := by
        obtain hstate | hstate := hstate <;> simp [hstate]
      obtain ⟨hup, halive, hregistered⟩ := h.up hup
      refine ⟨hbase, fun _ => ⟨hup, halive, hchannel.symm ▸ hregistered⟩, ?_, ?_⟩
      . intro hdown
        rw [hstate'] at hdown
        cases hdown
      . intro hdown
        rw [hstate'] at hdown
        cases hdown
    . obtain ⟨rfl, rfl⟩ := hclosed hstate
      exact h
  | poll | handleEvent | swap | endFunctors | removeConnectionInLoop | otherChannels =>
    exact h.of_leftAlone hbase (leftAlone_of_step rfl hstep)
  | destroyServer isInLoopThread =>
    cases isInLoopThread with
    | true =>
      simp only [next, if_true, Option.map_eq_some_iff] at hnext
      obtain ⟨⟨conn, loop, notices⟩, hdestroy, rfl⟩ := hnext
      exact h.of_destroy (hok.1 rfl) hbase hdestroy rfl rfl
    | false => exact h.of_leftAlone hbase (leftAlone_of_step rfl hstep)

theorem paired_reachable (h : system.ReachableBy DestroyedInTime s) : s.Paired := by
  apply h.invariant Paired
  . intro s hinit
    obtain ⟨hbase, hstate, hnotices⟩ := Base.init hinit
    have hdestroyed : s.destroyed = false := hinit.2.2.2.2
    refine ⟨hbase, fun _ => ⟨?_, hdestroyed, hbase.connected hstate⟩, ?_, ?_⟩
    . rw [upDown, hnotices]
      rfl
    all_goals
      simp [hstate]
  . exact fun _ _ _ hpaired hok hstep => hpaired.step hok hstep

/--
When `connectDestroyed` has run, `connectionCallback_` was invoked twice: once for the connection that is up
and once for the one that is down.
-/
theorem notified_up_and_down (h : system.ReachableBy DestroyedInTime s) (hdestroyed : s.destroyed = true)
    : s.upDown = [true, false] := by
  have hpaired := paired_reachable h
  apply hpaired.down
  by_contra hopen
  have halive := (hpaired.up hopen).2.1
  rw [hdestroyed] at halive
  cases halive

-- the peer closes, and the connection is removed in the normal way
def closedByPeer : List Label :=
  [.swap, .endFunctors, .poll (some EPOLLHUP), .handleEvent, .callback 0 (.accepted 0), .swap,
    .removeConnectionInLoop false, .endFunctors, .poll none, .swap, .runFunctor [] (.accepted 0)]

theorem notified_closedByPeer
    : ∃ s, system.runChecked (fun s a => s.DestroyedInTime a) established closedByPeer = some s
        ∧ s.destroyed = true ∧ s.upDown = [true, false] := by
  have h : system.runChecked (fun s a => s.DestroyedInTime a) established closedByPeer = some _ := rfl
  refine ⟨_, h, rfl, notified_up_and_down ?_ rfl⟩
  exact LTS.ReachableBy.runChecked (by simp) (.init established_init) h

-- the user shuts the connection down, and then the server is destroyed
def shutDownAndDestroyed : List Label :=
  [.shutdown false, .destroyServer false, .swap, .runFunctor [] (.accepted 0), .runFunctor [] (.accepted 0)]

/--
Nobody is told that the connection is down.
-/
theorem shutDown_never_down
    : ∃ s, system.Reachable s ∧ s.destroyed = true ∧ s.upDown = [true] ∧ ¬s.upDown = [true, false] := by
  have h : system.run established shutDownAndDestroyed = some _ := rfl
  refine ⟨_, LTS.Reachable.run (.init established_init) h, rfl, rfl, ?_⟩
  decide

end Life

end TcpConnection

end MyMuduo
