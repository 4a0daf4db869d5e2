import MyMuduo.TcpConnection.Pairing
import MyMuduo.TcpConnection.Race

/-!
This module contains when a connection that several threads close is closed once.
-/

namespace MyMuduo

namespace TcpConnection

open EventLoop (Thread)

namespace Life

variable {s s' : Life} {c c' : TcpConnection} {l l' : EventLoop Task}

theorem Sound.disconnect (h : Sound c l) (hdisconnect : c.disconnect l = some (c', l'))
    : Sound c' l' ∧ c'.state_ = .kDisconnected ∧ c'.channel.fd = c.channel.fd
        ∧ l'.pendingFunctors = l.pendingFunctors ∧ l'.functors = l.functors := by
  have hclose : c.handleClose l = some (c', l', [.connectionCallback c'.connected, .closeCallback]) := by
    rw [handleClose_eq, hdisconnect]
    rfl
  obtain ⟨hsound, hstate, hfd, _, hpending, hfunctors⟩ := h.handleClose hclose
  exact ⟨hsound, hstate, hfd, hpending, hfunctors⟩

theorem absent_of_disconnect (h : Sound c l) (hregistered : c.channel.Registered)
    (hdisconnect : c.disconnect l = some (c', l')) : l'.poller.epoll c'.channel.fd = none := by
  obtain ⟨_, _, heq, _, _, _, hfd, _, habsent, _, _⟩ := handleClose_of_registered h.synced hregistered.1
  rw [handleClose_eq, hdisconnect, Option.map_some, Option.some.injEq, Prod.mk.injEq, Prod.mk.injEq] at heq
  obtain ⟨rfl, rfl, _⟩ := heq
  rw [hfd]
  exact habsent

theorem Sound.removeChannel (h : Sound c l) (hstate : c.state_ ≠ .kConnected)
    (hremove : c.removeChannel l = some (c', l'))
    : Sound c' l' ∧ c'.state_ = c.state_ ∧ l'.pendingFunctors = l.pendingFunctors
        ∧ l'.functors = l.functors := by
  have hdestroy : c.connectDestroyed l = some (c', l', []) := by
    rw [connectDestroyed_eq, if_neg hstate, hremove]
    rfl
  obtain ⟨hsound, hstate', _, _, _, _, hpending, hfunctors⟩ := h.connectDestroyed hdestroy
  rw [if_neg hstate] at hstate'
  exact ⟨hsound, hstate', hpending, hfunctors⟩

theorem Sound.disconnecting (h : Sound c l) : Sound (c.setState .kDisconnecting) l := by
  refine ⟨h.synced, ?_, ?_, ?_⟩ <;> simp [setState]

-- a step that keeps the phase and what epoll has reported
theorem Base.of_sublist (h : s.Base) (hsound : Sound s'.conn s'.loop)
    (htasks : .connectEstablished ∉ s'.queue) (hphase : s'.phase = s.phase) (hactive : s'.active = s.active)
    (htodo : s'.todo.Sublist s.todo) : s'.Base := by
  refine ⟨hsound, htasks, ?_, ?_, htodo.trans h.order, ?_⟩
  . intro hne
    obtain ⟨hnone, hnil⟩ := h.idle (hphase ▸ hne)
    rw [hnil, List.sublist_nil] at htodo
    exact ⟨hactive.trans hnone, htodo⟩
  . intro hne
    apply hactive.trans
    apply h.handled
    rintro hnil
    rw [hnil, List.sublist_nil] at htodo
    exact hne htodo
  . intro hclose hread
    exact h.apart (htodo.subset hclose) (htodo.subset hread)

end Life

namespace Race

-- the caller has seen that the connection is open and is about to store `kDisconnecting`
def Caller.stores : Caller → Bool
  | .shuttingDown | .forcing => true
  | _ => false

-- the loop thread is about to store `kDisconnected`
def LoopPc.stores : LoopPc → Bool
  | .closing | .destroying => true
  | _ => false

variable {τ : Type}

/--
The loop thread stores `kDisconnected` while nobody is between its test of `state_` and its store, and
once `connectDestroyed` has run no close is handled in `kDisconnected`, whenever it was reported.
-/
def ClosesAlone (s : Race τ) : Label τ → Prop
  | .resume => s.pc.stores = true → ∀ t, (s.callers t).stores = false
  | .callback n w => s.conn.state_ = .kDisconnected → s.toLife.closesLate (.callback n w) = false
  | _ => True

-- the callbacks that the handler in progress will still invoke
def LoopPc.down : LoopPc → Nat
  | .closeStored | .destroyStored => 1
  | _ => 0

def LoopPc.close : LoopPc → Nat
  | .closeStored | .closeTold => 1
  | _ => 0

def LoopPc.stored : LoopPc → Bool
  | .closeStored | .closeTold | .destroyStored | .destroyTold => true
  | _ => false

def LoopPc.destroys : LoopPc → Bool
  | .destroying | .destroyStored | .destroyTold => true
  | _ => false

structure Once (s : Race τ) : Prop extends Life.Base s.toLife where
  fresh : s.wasDown = false → s.conn.state_ ≠ .kDisconnected
    ∧ s.notices.count (.connectionCallback false) = 0 ∧ s.notices.count .closeCallback = 0
  finished : s.wasDown = true →
    s.conn.state_ = .kDisconnected ∧ s.pc.stores = false ∧ ∀ t, (s.callers t).stores = false
  stored : s.pc.stored = true → s.wasDown = true
  down : s.notices.count (.connectionCallback false) + s.pc.down ≤ 1
  close : s.notices.count .closeCallback + s.pc.close ≤ 1
  registered : s.wasDown = false → s.destroyed = false → s.conn.channel.Registered
  noMoreClose : s.wasDown = true → s.destroyed = false → s.toLife.NoMoreClose
  behind : s.pc = .closing ∨ s.pc = .forceTest → s.active = none ∧ .close ∉ s.todo ∧ .read ∉ s.todo
  destroying : s.pc.destroys = true → s.destroyed = true

-- the handler that `pc'` stands for has no more of the closing ahead of it than that of `pc`
structure LoopPc.Calmer (pc' pc : LoopPc) : Prop where
  stores : pc.stores = false → pc'.stores = false
  stored : pc'.stored = true → pc.stored = true
  down : pc'.down ≤ pc.down
  close : pc'.close ≤ pc.close
  behind : pc' = .closing ∨ pc' = .forceTest → pc = .closing ∨ pc = .forceTest
  destroying : pc'.destroys = true → pc.destroys = true

theorem LoopPc.calmer {pc pc' : LoopPc} (h : pc' = pc ∨ pc'.isCalm = true) : Calmer pc' pc := by
  obtain rfl | hcalm := h
  . exact ⟨id, id, Nat.le_refl _, Nat.le_refl _, id, id⟩
  . constructor
    all_goals
      cases pc' <;> simp_all [isCalm, LoopPc.stores, LoopPc.stored, LoopPc.down, LoopPc.close, LoopPc.destroys]

variable {s s' : Race τ}

theorem mild_count {c c' : TcpConnection} {l l' : EventLoop Task} {notices : List Notice} {notice : Notice}
    (h : Mild c l c' l' notices) (hne : notice ≠ .messageCallback) : notices.count notice = 0 := by
  apply List.count_eq_zero.mpr
  intro hmem
  exact hne (h.notices _ hmem)

/--
A step that runs no part of the closing.
-/
theorem Once.of_mild {notices : List Notice} (h : s.Once)
    (hmild : Mild s.conn s.loop s'.conn s'.loop notices) (hnotices : s'.notices = s.notices ++ notices)
    (hphase : s'.phase = s.phase) (hactive : s'.active = s.active) (htodo : s'.todo.Sublist s.todo)
    (hdestroyed : s'.destroyed = s.destroyed) (hwasDown : s'.wasDown = s.wasDown)
    (hpc : s'.pc = s.pc ∨ s'.pc.isCalm = true)
    (hcallers : s.wasDown = true → ∀ t, (s'.callers t).stores = false) : s'.Once := by
  have hbase : s'.toLife.Base :=
    h.toBase.of_sublist (h.toSound.quiet hmild.toQuiet) (hmild.not_mem h.tasks) hphase hactive htodo
  have hdown : s'.notices.count (.connectionCallback false) = s.notices.count (.connectionCallback false) := by
    rw [hnotices, List.count_append, mild_count hmild (by simp), Nat.add_zero]
  have hclose : s'.notices.count .closeCallback = s.notices.count .closeCallback := by
    rw [hnotices, List.count_append, mild_count hmild (by simp), Nat.add_zero]
  have hcalmer := LoopPc.calmer hpc
  refine ⟨hbase, ?_, ?_, ?_, ?_, ?_, ?_, ?_, ?_, ?_⟩
  . rw [hwasDown, hmild.state_, hdown, hclose]
    exact h.fresh
  . rw [hwasDown, hmild.state_]
    intro hfinished
    obtain ⟨hstate, hstores, _⟩ := h.finished hfinished
    exact ⟨hstate, hcalmer.stores hstores, hcallers hfinished⟩
  . rw [hwasDown]
    exact fun hstored => h.stored (hcalmer.stored hstored)
  . rw [hdown]
    exact Nat.le_trans (Nat.add_le_add_left hcalmer.down _) h.down
  . rw [hclose]
    exact Nat.le_trans (Nat.add_le_add_left hcalmer.close _) h.close
  . rw [hwasDown, hdestroyed]
    intro hfresh halive
    exact hmild.channel.registered (h.registered hfresh halive)
  . rw [hwasDown, hdestroyed]
    intro hfinished halive
    have hstate := (h.finished hfinished).1
    obtain ⟨habsent, hnone, hnotClose, hnotRead⟩ := h.noMoreClose hfinished halive
    obtain ⟨hchannel, hpoller⟩ := hmild.closed hstate (Life.not_isWriting_of_none (h.closed hstate))
    refine ⟨?_, hactive.trans hnone, fun hmem => hnotClose (htodo.subset hmem),
      fun hmem => hnotRead (htodo.subset hmem)⟩
    rw [hchannel, hpoller]
    exact habsent
  . intro hbehind
    obtain ⟨hnone, hnotClose, hnotRead⟩ := h.behind (hcalmer.behind hbehind)
    exact ⟨hactive.trans hnone, fun hmem => hnotClose (htodo.subset hmem),
      fun hmem => hnotRead (htodo.subset hmem)⟩
  . rw [hdestroyed]
    exact fun hdestroying => h.destroying (hcalmer.destroying hdestroying)

theorem LoopPc.of_not_stored {pc : LoopPc} (h : pc.stored = false) : pc.down = 0 ∧ pc.close = 0 := by
  cases pc <;> simp_all [stored, LoopPc.down, LoopPc.close]

theorem Once.fresh_of_state (h : s.Once) (hstate : s.conn.state_ ≠ .kDisconnected) : s.wasDown = false := by
  by_contra hfinished
  exact hstate (h.finished (Bool.not_eq_false _ ▸ hfinished)).1

/--
A step that leaves the connection open.
-/
theorem Once.of_fresh (h : s.Once) (hfresh : s.wasDown = false) (hbase : s'.toLife.Base)
    (hwasDown : s'.wasDown = s.wasDown) (hstate : s'.conn.state_ ≠ .kDisconnected)
    (hnotices : s'.notices = s.notices) (hpc : s'.pc.stored = false)
    (hregistered : s'.destroyed = false → s'.conn.channel.Registered)
    (hbehind : s'.pc = .closing ∨ s'.pc = .forceTest → s'.active = none ∧ .close ∉ s'.todo ∧ .read ∉ s'.todo)
    (hdestroying : s'.pc.destroys = true → s'.destroyed = true) : s'.Once := by
  obtain ⟨_, hdown, hclose⟩ := h.fresh hfresh
  obtain ⟨hpcDown, hpcClose⟩ := LoopPc.of_not_stored hpc
  have hfresh' : s'.wasDown = false := hwasDown.trans hfresh
  refine ⟨hbase, ?_, ?_, ?_, ?_, ?_, fun _ => hregistered, ?_, hbehind, hdestroying⟩
  . rw [hnotices]
    exact fun _ => ⟨hstate, hdown, hclose⟩
  . simp [hfresh']
  . simp [hpc]
  . simp [hnotices, hdown, hpcDown]
  . simp [hnotices, hclose, hpcClose]
  . simp [hfresh']

theorem Once.not_stored (h : s.Once) (hfresh : s.wasDown = false) : s.pc.stored = false := by
  by_contra hstored
  have hfinished := h.stored (Bool.not_eq_false _ ▸ hstored)
  rw [hfresh] at hfinished
  cases hfinished

-- a call stores `kDisconnecting`
theorem Once.of_store {t : Thread τ} [DecidableEq τ] (h : s.Once) (hstores : (s.callers t).stores = true)
    (caller : Caller) : Once { s.setCaller t caller with conn := s.conn.setState .kDisconnecting } := by
  have hfresh : s.wasDown = false := by
    by_contra hfinished
    have hnone := (h.finished (Bool.not_eq_false _ ▸ hfinished)).2.2 t
    rw [hstores] at hnone
    cases hnone
  have hbase : Life.Base { s.toLife with conn := s.conn.setState .kDisconnecting } :=
    h.toBase.of_sublist h.toSound.disconnecting h.tasks rfl rfl (List.Sublist.refl _)
  refine h.of_fresh hfresh hbase rfl ?_ rfl (h.not_stored hfresh) (h.registered hfresh) h.behind h.destroying
  simp [setState]

-- the loop thread stores `kDisconnected`
theorem Once.of_disconnect {pc : LoopPc} {conn : TcpConnection} {loop : EventLoop Task} (h : s.Once)
    (hpc : s.pc = .closing ∧ pc = .closeStored ∨ s.pc = .destroying ∧ pc = .destroyStored)
    (hok : ∀ t, (s.callers t).stores = false) (hdisconnect : s.conn.disconnect s.loop = some (conn, loop))
    : Once { s with conn := conn, loop := loop, wasDown := true, pc := pc } := by
  have hstores : s.pc.stores = true := by
    obtain ⟨hpc, _⟩ | ⟨hpc, _⟩ := hpc <;> rw [hpc] <;> rfl
  have hfresh : s.wasDown = false := by
    by_contra hfinished
    have hnone := (h.finished (Bool.not_eq_false _ ▸ hfinished)).2.1
    rw [hstores] at hnone
    cases hnone
  obtain ⟨_, hdown, hclose⟩ := h.fresh hfresh
  obtain ⟨hsound, hstate, _, hpending, hfunctors⟩ := h.toSound.disconnect hdisconnect
  have htasks : Task.connectEstablished ∉ loop.functors ++ loop.pendingFunctors := by
    rw [hpending, hfunctors]
    exact h.tasks
  have hbase : Life.Base { s.toLife with conn := conn, loop := loop } :=
    h.toBase.of_sublist hsound htasks rfl rfl (List.Sublist.refl _)
  refine ⟨hbase, ?_, ?_, ?_, ?_, ?_, ?_, ?_, ?_, ?_⟩
  . simp
  . refine fun _ => ⟨hstate, ?_, hok⟩
    obtain ⟨_, rfl⟩ | ⟨_, rfl⟩ := hpc <;> rfl
  . exact fun _ => rfl
  . simp only [hdown]
    obtain ⟨_, rfl⟩ | ⟨_, rfl⟩ := hpc <;> simp [LoopPc.down]
  . simp only [hclose]
    obtain ⟨_, rfl⟩ | ⟨_, rfl⟩ := hpc <;> simp [LoopPc.close]
  . simp
  . intro _ halive
    obtain ⟨hclosing, rfl⟩ | ⟨hdestroying, rfl⟩ := hpc
    . obtain ⟨hnone, hnotClose, hnotRead⟩ := h.behind (.inl hclosing)
      exact ⟨Life.absent_of_disconnect h.toSound (h.registered hfresh halive) hdisconnect, hnone, hnotClose,
        hnotRead⟩
    . have hdestroyed := h.destroying (by simp [hdestroying, LoopPc.destroys])
      rw [halive] at hdestroyed
      cases hdestroyed
  . obtain ⟨_, rfl⟩ | ⟨_, rfl⟩ := hpc <;> simp
  . obtain ⟨_, rfl⟩ | ⟨hdestroying, rfl⟩ := hpc
    . simp [LoopPc.destroys]
    . exact fun _ => h.destroying (by simp [hdestroying, LoopPc.destroys])

-- a callback of the closing is invoked
theorem Once.of_notice {notice : Notice} {pc : LoopPc} (h : s.Once) (hpc : s.pc.stored = true)
    (hnotice : notice = .connectionCallback false ∧ s.pc.down = pc.down + 1 ∧ s.pc.close = pc.close
      ∨ notice = .closeCallback ∧ s.pc.down = pc.down ∧ s.pc.close = pc.close + 1)
    (hstores : pc.stores = false) (hbehind : pc ≠ .closing ∧ pc ≠ .forceTest)
    (hdestroying : pc.destroys = true → s.pc.destroys = true) (removing : Nat)
    : Once { s with notices := s.notices ++ [notice], removing := removing, pc := pc } := by
  have hfinished := h.stored hpc
  have hbase : Life.Base { s.toLife with notices := s.notices ++ [notice], removing := removing } :=
    h.toBase.of_sublist h.toSound h.tasks rfl rfl (List.Sublist.refl _)
  have hdown := h.down
  have hclose := h.close
  refine ⟨hbase, ?_, ?_, fun _ => hfinished, ?_, ?_, h.registered, ?_, ?_, fun hpc => h.destroying (hdestroying hpc)⟩
  . simp [hfinished]
  . intro _
    obtain ⟨hstate, _, hcallers⟩ := h.finished hfinished
    exact ⟨hstate, hstores, hcallers⟩
  . obtain ⟨rfl, hpcDown, _⟩ | ⟨rfl, hpcDown, _⟩ := hnotice
    . simp only [List.count_append, List.count_singleton_self]
      omega
    . have hne : List.count (.connectionCallback false) [Notice.closeCallback] = 0 := by decide
      simp only [List.count_append, hne]
      omega
  . obtain ⟨rfl, _, hpcClose⟩ | ⟨rfl, _, hpcClose⟩ := hnotice
    . have hne : List.count .closeCallback [Notice.connectionCallback false] = 0 := by decide
      simp only [List.count_append, hne]
      omega
    . simp only [List.count_append, List.count_singleton_self]
      omega
  . intro hfinished halive
    obtain ⟨habsent, hactive, hnotClose, hnotRead⟩ := h.noMoreClose hfinished halive
    exact ⟨habsent, hactive, hnotClose, hnotRead⟩
  . rintro (hclosing | htest)
    . exact absurd hclosing hbehind.1
    . exact absurd htest hbehind.2

-- `connectDestroyed` removes the channel of a connection that is not `kConnected`
theorem Once.of_removeChannel {conn : TcpConnection} {loop : EventLoop Task} {pc : LoopPc} (h : s.Once)
    (hstate : s.conn.state_ ≠ .kConnected) (hremove : s.conn.removeChannel s.loop = some (conn, loop))
    (hpc : pc.isCalm = true) : Once { s with destroyed := true, conn := conn, loop := loop, pc := pc } := by
  obtain ⟨hsound, hstate', hpending, hfunctors⟩ := h.toSound.removeChannel hstate hremove
  have htasks : Task.connectEstablished ∉ loop.functors ++ loop.pendingFunctors := by
    rw [hpending, hfunctors]
    exact h.tasks
  have hbase : Life.Base { s.toLife with destroyed := true, conn := conn, loop := loop } :=
    h.toBase.of_sublist hsound htasks rfl rfl (List.Sublist.refl _)
  have hcalmer : LoopPc.Calmer pc s.pc := LoopPc.calmer (.inr hpc)
  refine ⟨hbase, ?_, ?_, fun hstored => h.stored (hcalmer.stored hstored), ?_, ?_, ?_, ?_, ?_, fun _ => rfl⟩
  . dsimp only
    rw [hstate']
    exact h.fresh
  . dsimp only
    rw [hstate']
    intro hfinished
    obtain ⟨hdown, hstores, hcallers⟩ := h.finished hfinished
    exact ⟨hdown, hcalmer.stores hstores, hcallers⟩
  . exact Nat.le_trans (Nat.add_le_add_left hcalmer.down _) h.down
  . exact Nat.le_trans (Nat.add_le_add_left hcalmer.close _) h.close
  . simp
  . simp
  . exact fun hbehind => h.behind (hcalmer.behind hbehind)

theorem Once.resume (h : s.Once) (hok : s.ClosesAlone (.resume : Label τ)) (hresume : s.resume = some s')
    : s'.Once := by
  unfold Race.resume at hresume
  split at hresume
  . cases hresume
  . next hpc =>
    simp only [Option.some.injEq] at hresume
    subst hresume
    exact h.of_mild (.of_eq rfl rfl (by simp)) (List.append_nil _).symm rfl rfl (List.Sublist.refl _) rfl rfl
      (.inr rfl) fun hfinished => (h.finished hfinished).2.2
  . next hpc =>
    simp only [Option.some.injEq] at hresume
    subst hresume
    exact h.of_mild (mild_shutdownIfDisconnecting s.conn s.loop) (List.append_nil _).symm rfl rfl
      (List.Sublist.refl _) rfl rfl (.inr rfl) fun hfinished => (h.finished hfinished).2.2
  . next hpc =>
    simp only [Option.map_eq_some_iff] at hresume
    obtain ⟨⟨conn, loop⟩, hdisconnect, rfl⟩ := hresume
    exact h.of_disconnect (.inl ⟨hpc, rfl⟩) (hok (by rw [hpc]; rfl)) hdisconnect
  . next hpc =>
    simp only [Option.some.injEq] at hresume
    subst hresume
    have hstored : s.pc.stored = true := by
      rw [hpc]
      rfl
    have hdown : s.conn.connected = false := by
      simp [connected, (h.finished (h.stored hstored)).1]
    rw [hdown]
    exact h.of_notice hstored (.inl ⟨rfl, by rw [hpc]; rfl, by rw [hpc]; rfl⟩) rfl (by simp)
      (by simp [LoopPc.destroys]) s.removing
  . next hpc =>
    simp only [Option.some.injEq] at hresume
    subst hresume
    have hstored : s.pc.stored = true := by
      rw [hpc]
      rfl
    exact h.of_notice hstored (.inr ⟨rfl, by rw [hpc]; rfl, by rw [hpc]; rfl⟩) rfl (by simp)
      (by simp [LoopPc.destroys]) _
  . next hpc =>
    simp only [Option.some.injEq] at hresume
    subst hresume
    split
    . next hstate =>
      have hfresh := h.fresh_of_state (by simp [hstate])
      have hbase : Life.Base s.toLife := h.toBase
      exact h.of_fresh hfresh hbase rfl (by simp [hstate]) rfl rfl (h.registered hfresh)
        (fun _ => h.behind (.inr hpc)) (by simp [LoopPc.destroys])
    . exact h.of_mild (.of_eq rfl rfl (by simp)) (List.append_nil _).symm rfl rfl (List.Sublist.refl _) rfl rfl
        (.inr rfl) fun hfinished => (h.finished hfinished).2.2
  . next hpc =>
    simp only [Option.map_eq_some_iff] at hresume
    obtain ⟨⟨conn, loop⟩, hdisconnect, rfl⟩ := hresume
    exact h.of_disconnect (.inr ⟨hpc, rfl⟩) (hok (by rw [hpc]; rfl)) hdisconnect
  . next hpc =>
    simp only [Option.some.injEq] at hresume
    subst hresume
    have hstored : s.pc.stored = true := by
      rw [hpc]
      rfl
    have hdown : s.conn.connected = false := by
      simp [connected, (h.finished (h.stored hstored)).1]
    rw [hdown]
    exact h.of_notice hstored (.inl ⟨rfl, by rw [hpc]; rfl, by rw [hpc]; rfl⟩) rfl (by simp)
      (by simp [hpc, LoopPc.destroys]) s.removing
  . next hpc =>
    simp only [Option.map_eq_some_iff] at hresume
    obtain ⟨⟨conn, loop⟩, hremove, rfl⟩ := hresume
    have hstate := (h.finished (h.stored (by rw [hpc]; rfl))).1
    have hdestroyed := h.destroying (by rw [hpc]; rfl)
    have hremoved : Once { s with destroyed := true, conn := conn, loop := loop, pc := .idle } :=
      h.of_removeChannel (by simp [hstate]) hremove rfl
    rw [← hdestroyed] at hremoved
    exact hremoved

theorem Once.startDestroy (h : s.Once) (hpc : s.pc = .idle) (hstart : s.startDestroy = some s') : s'.Once := by
  obtain ⟨hstate, rfl⟩ | ⟨hstate, conn, loop, hremove, rfl⟩ := startDestroy_cases hstart
  . have hfresh := h.fresh_of_state (by simp [hstate])
    have hbase : Life.Base { s.toLife with destroyed := true } :=
      h.toBase.of_sublist h.toSound h.tasks rfl rfl (List.Sublist.refl _)
    exact h.of_fresh hfresh hbase rfl (by simp [hstate]) rfl rfl (by simp) (by simp) (fun _ => rfl)
  . have hcalm : s.pc.isCalm = true := by
      rw [hpc]
      rfl
    exact h.of_removeChannel hstate hremove hcalm

theorem Once.inMap (h : s.Once) (inMap : Bool) : Once { s with inMap := inMap } := by
  have hbase : Life.Base { s.toLife with inMap := inMap } :=
    h.toBase.of_sublist h.toSound h.tasks rfl rfl (List.Sublist.refl _)
  refine ⟨hbase, h.fresh, h.finished, h.stored, h.down, h.close, h.registered, ?_, h.behind, h.destroying⟩
  intro hfinished halive
  obtain ⟨habsent, hactive, hnotClose, hnotRead⟩ := h.noMoreClose hfinished halive
  exact ⟨habsent, hactive, hnotClose, hnotRead⟩

theorem Once.callback {n : Int} {w : WriteResult} (h : s.Once) (hpc : s.pc = .idle)
    (hok : s.ClosesAlone (.callback n w : Label τ)) (hcallback : s.callback n w = some s') : s'.Once := by
  obtain ⟨callback, todo, htodo, ⟨hcloses, rfl⟩ | ⟨conn, loop, notices, pc, hmild, hcalm, rfl⟩⟩ :=
    callback_cases hpc hcallback
  . have hsublist : todo.Sublist s.todo := by
      rw [htodo]
      exact List.sublist_cons_self _ _
    have hkind : callback = .close ∨ callback = .read ∧ n = 0 := by
      simpa [closes] using hcloses
    have hmem : callback = .close ∨ callback = .read := by
      obtain heq | ⟨heq, _⟩ := hkind
      . exact .inl heq
      . exact .inr heq
    have hfresh : s.wasDown = false := by
      by_contra hfinished
      have hfinished : s.wasDown = true := Bool.not_eq_false _ ▸ hfinished
      cases hdestroyed : s.destroyed with
      | true =>
        have hlate := hok (h.finished hfinished).1
        simp only [Life.closesLate, hdestroyed, htodo, List.head?_cons, Option.some.injEq] at hlate
        obtain rfl | ⟨rfl, rfl⟩ := hkind <;> simp at hlate
      | false =>
        have hnoMore := h.noMoreClose hfinished hdestroyed
        obtain rfl | rfl := hmem
        . exact hnoMore.close (htodo ▸ List.mem_cons_self)
        . exact hnoMore.read (htodo ▸ List.mem_cons_self)
    have hbase : Life.Base { s.toLife with todo := todo } :=
      h.toBase.of_sublist h.toSound h.tasks rfl rfl hsublist
    obtain ⟨hnotClose, hnotRead⟩ := Life.not_mem_behind_close (htodo ▸ h.order) (htodo ▸ h.apart) hmem
    exact h.of_fresh hfresh hbase rfl (h.fresh hfresh).1 rfl rfl (h.registered hfresh)
      (fun _ => ⟨h.handled (by simp [htodo]), hnotClose, hnotRead⟩) (by simp [LoopPc.destroys])
  . have hsublist : todo.Sublist s.todo := by
      rw [htodo]
      exact List.sublist_cons_self _ _
    exact h.of_mild hmild rfl rfl rfl hsublist rfl rfl (.inr hcalm) fun hfinished => (h.finished hfinished).2.2

theorem Once.pop {task : Task} {functors : List Task} (h : s.Once) (hfunctors : s.loop.functors = task :: functors)
    : (s.pop task functors).Once := by
  refine ⟨h.toBase.popped hfunctors, h.fresh, h.finished, h.stored, h.down, h.close, h.registered, ?_, h.behind,
    h.destroying⟩
  intro hfinished halive
  obtain ⟨habsent, hactive, hnotClose, hnotRead⟩ := h.noMoreClose hfinished halive
  exact ⟨habsent, hactive, hnotClose, hnotRead⟩

theorem Once.runFunctor {message : List UInt8} {w : WriteResult} (h : s.Once) (hpc : s.pc = .idle)
    (hphase : s.phase = .functors) (hrun : s.runFunctor message w = some s') : s'.Once := by
  obtain ⟨task, functors, hfunctors, hcases⟩ := runFunctor_cases h.tasks hrun
  have hpop := h.pop hfunctors
  obtain ⟨hactive, htodo⟩ := h.idle (by simp [hphase])
  obtain ⟨_, hstart⟩ | ⟨_, rfl⟩ | ⟨_, conn, loop, notices, pc, hmild, hcalm, rfl⟩ := hcases
  . exact hpop.startDestroy hpc hstart
  . have hbehind : s.active = none ∧ .close ∉ s.todo ∧ .read ∉ s.todo := by
      simp [hactive, htodo]
    split
    . next hstate =>
      have hfresh := h.fresh_of_state (by simp [hstate])
      have hbase : Life.Base (s.pop task functors).toLife := hpop.toBase
      exact hpop.of_fresh hfresh hbase rfl (h.fresh hfresh).1 rfl rfl (h.registered hfresh)
        (fun _ => hbehind) (by simp [LoopPc.destroys])
    . refine ⟨hpop.toBase, h.fresh, ?_, ?_, ?_, ?_, h.registered, ?_, fun _ => hbehind, ?_⟩
      . intro hfinished
        obtain ⟨hstate, _, hcallers⟩ := h.finished hfinished
        exact ⟨hstate, rfl, hcallers⟩
      . simp [LoopPc.stored]
      . exact Nat.le_trans (Nat.le_add_right _ _) h.down
      . exact Nat.le_trans (Nat.le_add_right _ _) h.close
      . intro hfinished halive
        obtain ⟨habsent, _, hnotClose, hnotRead⟩ := h.noMoreClose hfinished halive
        exact ⟨habsent, hactive, hnotClose, hnotRead⟩
      . simp [LoopPc.destroys]
  . exact hpop.of_mild hmild rfl rfl rfl (List.Sublist.refl _) rfl rfl (.inr hcalm) fun hfinished =>
      (h.finished hfinished).2.2

theorem Once.of_leftAlone (h : s.Once) (hbase : s'.toLife.Base) (hleft : Life.LeftAlone s.toLife s'.toLife)
    (hpc : s'.pc = s.pc) (hcallers : s'.callers = s.callers) (hwasDown : s'.wasDown = s.wasDown)
    (hbehind : s.pc = .closing ∨ s.pc = .forceTest → s'.active = none ∧ .close ∉ s'.todo ∧ .read ∉ s'.todo)
    : s'.Once := by
  obtain ⟨hconn, hnotices, hdestroyed, hnoMoreClose⟩ := hleft
  refine ⟨hbase, ?_, ?_, ?_, ?_, ?_, ?_, ?_, ?_, ?_⟩
  . rw [hwasDown, hconn, hnotices]
    exact h.fresh
  . rw [hwasDown, hconn, hpc, hcallers]
    exact h.finished
  . rw [hpc, hwasDown]
    exact h.stored
  . rw [hnotices, hpc]
    exact h.down
  . rw [hnotices, hpc]
    exact h.close
  . rw [hwasDown, hdestroyed, hconn]
    exact h.registered
  . rw [hwasDown, hdestroyed]
    exact fun hfinished halive => hnoMoreClose (h.noMoreClose hfinished halive)
  . rw [hpc]
    exact hbehind
  . rw [hpc, hdestroyed]
    exact h.destroying

theorem leftAlone_cleared {life life' : Life} (h : Life.LeftAlone life life')
    : Life.LeftAlone life { life' with todo := [] } := by
  refine ⟨h.conn, h.notices, h.destroyed, ?_⟩
  intro hnoMoreClose
  obtain ⟨habsent, hactive, _, _⟩ := h.noMoreClose hnoMoreClose
  exact ⟨habsent, hactive, List.not_mem_nil, List.not_mem_nil⟩

-- the steps of the base loop do not touch what epoll has reported
theorem next_ofBaseLoop {life life' : Life} {a : Life.Label} (halone : a.leavesAlone = true)
    (hbaseLoop : a.ofBaseLoop = true) (hnext : life.next a = some life')
    : life'.active = life.active ∧ life'.todo = life.todo := by
  cases a with
  | removeConnectionInLoop =>
    simp only [Life.next, Option.some.injEq] at hnext
    subst hnext
    exact ⟨rfl, rfl⟩
  | destroyServer isInLoopThread =>
    cases isInLoopThread with
    | true => cases halone
    | false =>
      simp only [Life.next, Bool.false_eq_true, if_false, Option.some.injEq] at hnext
      subst hnext
      exact ⟨rfl, rfl⟩
  | _ => cases hbaseLoop

theorem Once.life [DecidableEq τ] {a : Life.Label} (h : s.Once)
    (henabled : s.enabled (.life a : Label τ) = true) (hstep : s.lifeStep a = some s') : s'.Once := by
  simp only [enabled, Bool.and_eq_true, Bool.or_eq_true] at henabled
  obtain ⟨⟨halone, hidle⟩, henabled⟩ := henabled
  simp only [lifeStep, Option.map_eq_some_iff] at hstep
  obtain ⟨life, hnext, rfl⟩ := hstep
  have hlife : Life.system.step s.toLife a = some life := LTS.guarded_step.mpr ⟨henabled, hnext⟩
  have hbase := h.toBase.step hlife
  have hleft := Life.leftAlone_of_step halone hlife
  have hbehind : s.pc = .closing ∨ s.pc = .forceTest →
      life.active = none ∧ .close ∉ life.todo ∧ .read ∉ life.todo := by
    intro hpc
    cases hidle with
    | inl hbaseLoop =>
      obtain ⟨hactive, htodo⟩ := next_ofBaseLoop halone hbaseLoop hnext
      rw [hactive, htodo]
      exact h.behind hpc
    | inr hidle =>
      simp only [loopIdle, Bool.and_eq_true, decide_eq_true_eq] at hidle
      rw [hidle.2] at hpc
      simp at hpc
  cases s.freed with
  | true =>
    have hcleared : Life.Base { life with todo := [] } :=
      hbase.of_sublist hbase.toSound hbase.tasks rfl rfl (List.nil_sublist _)
    exact h.of_leftAlone hcleared (leftAlone_cleared hleft) rfl rfl rfl fun hpc =>
      ⟨(hbehind hpc).1, List.not_mem_nil, List.not_mem_nil⟩
  | false => exact h.of_leftAlone hbase hleft rfl rfl rfl hbehind

theorem Once.queued {task : Task} (h : s.Once) (htask : task ≠ .connectEstablished) (isInLoopThread : Bool)
    : Once { s with loop := s.loop.queueInLoop isInLoopThread task } := by
  have hsound : Life.Sound s.conn (s.loop.queueInLoop isInLoopThread task) :=
    ⟨by simpa using h.synced, h.connected, h.closed, h.open_⟩
  have htasks : .connectEstablished ∉ Life.queue { s.toLife with loop := s.loop.queueInLoop isInLoopThread task } := by
    simp only [Life.queue, EventLoop.functors_queueInLoop, EventLoop.pendingFunctors_queueInLoop]
    exact Life.tasks_of_pending h.tasks (fun _ hmem => hmem) (by simpa using htask.symm)
  refine ⟨h.toBase.of_sublist hsound htasks rfl rfl (List.Sublist.refl _), h.fresh, h.finished, h.stored, h.down,
    h.close, h.registered, ?_, h.behind, h.destroying⟩
  intro hfinished halive
  obtain ⟨habsent, hactive, hnotClose, hnotRead⟩ := h.noMoreClose hfinished halive
  exact ⟨by simpa using habsent, hactive, hnotClose, hnotRead⟩

section

variable [DecidableEq τ]

theorem Once.callers (h : s.Once) {t : Thread τ} {c : Caller}
    (hc : s.conn.state_ = .kDisconnected → c.stores = false) (hfinished : s.wasDown = true) (t' : Thread τ)
    : ((s.setCaller t c).callers t').stores = false := by
  obtain ⟨hstate, _, hcallers⟩ := h.finished hfinished
  simp only [setCaller, Function.update_apply]
  split
  . exact hc hstate
  . exact hcallers t'

theorem Once.setCaller (h : s.Once) {t : Thread τ} {c : Caller}
    (hc : s.conn.state_ = .kDisconnected → c.stores = false) : (s.setCaller t c).Once :=
  h.of_mild (.of_eq rfl rfl (by simp)) (List.append_nil _).symm rfl rfl (List.Sublist.refl _) rfl rfl (.inl rfl)
    (h.callers hc)

theorem Once.call (h : s.Once) (t : Thread τ) (c : Call) : (s.setCaller t (c.load s.conn)).Once := by
  apply h.setCaller
  intro hstate
  cases c <;> simp [Call.load, hstate, Caller.stores]

theorem Once.advance {t : Thread τ} {contents : List UInt8} {w : WriteResult} (h : s.Once)
    (hadvance : s.advance t contents w = some s') : s'.Once := by
  have hreturned : (s.setCaller t .idle).Once := h.setCaller fun _ => rfl
  unfold Race.advance at hadvance
  split at hadvance
  . cases hadvance
  . dsimp only at hadvance
    split at hadvance
    . simp only [Option.map_eq_some_iff] at hadvance
      obtain ⟨⟨conn, loop⟩, hsend, rfl⟩ := hadvance
      exact hreturned.of_mild (mild_sendInLoop hsend) (List.append_nil _).symm rfl rfl (List.Sublist.refl _) rfl
        rfl (.inl rfl) fun hfinished => (hreturned.finished hfinished).2.2
    . simp only [Option.some.injEq] at hadvance
      subst hadvance
      exact hreturned.queued (by simp) false
  . next hcaller =>
    simp only [Option.some.injEq] at hadvance
    subst hadvance
    exact h.of_store (by rw [hcaller]; rfl) .shutDown
  . dsimp only at hadvance
    split at hadvance
    . simp only [Option.some.injEq] at hadvance
      subst hadvance
      exact hreturned.of_mild (mild_shutdownInLoop s.conn s.loop) (List.append_nil _).symm rfl rfl
        (List.Sublist.refl _) rfl rfl (.inl rfl) fun hfinished => (hreturned.finished hfinished).2.2
    . simp only [Option.some.injEq] at hadvance
      subst hadvance
      exact hreturned.queued (by simp) false
  . simp only [Option.some.injEq] at hadvance
    subst hadvance
    apply h.setCaller
    intro hstate
    simp [hstate, Caller.stores]
  . next hcaller =>
    simp only [Option.some.injEq] at hadvance
    subst hadvance
    exact h.of_store (by rw [hcaller]; rfl) .forced
  . simp only [Option.some.injEq] at hadvance
    subst hadvance
    exact hreturned.queued (by simp) _

theorem Once.step {a : Label τ} (h : s.Once) (hok : s.ClosesAlone a) (hstep : (system τ).step s a = some s')
    : s'.Once := by
  obtain ⟨henabled, hnext⟩ := LTS.guarded_step.mp hstep
  simp only [next, Option.map_eq_some_iff] at hnext
  obtain ⟨s₁, hact, rfl⟩ := hnext
  have hrelease : s₁.Once → s₁.release.Once := fun h₁ =>
    ⟨h₁.toBase, h₁.fresh, h₁.finished, h₁.stored, h₁.down, h₁.close, h₁.registered, h₁.noMoreClose, h₁.behind,
      h₁.destroying⟩
  apply hrelease
  cases a with
  | life a => exact h.life henabled hact
  | callback n w =>
    simp only [enabled, loopIdle, Bool.and_eq_true, decide_eq_true_eq] at henabled
    exact h.callback henabled.1.2 hok hact
  | runFunctor message w =>
    simp only [enabled, loopIdle, Life.enabled, Bool.and_eq_true, decide_eq_true_eq] at henabled
    exact h.runFunctor henabled.1.2 henabled.2.1 hact
  | destroyServer =>
    simp only [enabled, loopIdle, Bool.and_eq_true, decide_eq_true_eq] at henabled
    exact (h.inMap false).startDestroy henabled.1.2 hact
  | resume => exact h.resume hok hact
  | endRemovals =>
    simp only [act, Option.some.injEq] at hact
    subst hact
    exact ⟨h.toBase, h.fresh, h.finished, h.stored, h.down, h.close, h.registered, h.noMoreClose, h.behind,
      h.destroying⟩
  | call t c =>
    simp only [act, Option.some.injEq] at hact
    subst hact
    exact h.call t c
  | advance t contents w => exact h.advance hact
  | share t | drop t =>
    simp only [act, Option.some.injEq] at hact
    subst hact
    exact ⟨h.toBase, h.fresh, h.finished, h.stored, h.down, h.close, h.registered, h.noMoreClose, h.behind,
      h.destroying⟩

theorem once_reachable (h : (system τ).ReachableBy ClosesAlone s) : s.Once := by
  apply h.invariant Once
  . rintro s ⟨hlife, hpc, hcallers, _, _, _, _, hfresh⟩
    obtain ⟨hbase, hstate, hnotices⟩ := Life.Base.init hlife
    refine ⟨hbase, ?_, ?_, ?_, ?_, ?_, fun _ _ => hbase.connected hstate, ?_, ?_, ?_⟩
    . rw [hstate, hnotices]
      exact fun _ => ⟨by simp, by decide, by decide⟩
    . simp [hfresh]
    . simp [hpc, LoopPc.stored]
    . rw [hnotices, hpc]
      decide
    . rw [hnotices, hpc]
      decide
    . simp [hfresh]
    . simp [hpc]
    . simp [hpc, LoopPc.destroys]
  . exact fun _ _ _ honce hok hstep => honce.step hok hstep

/--
The connection stays closed, and `connectionCallback_` and `closeCallback_` are told so at most once.
-/
theorem closed_once (h : (system τ).ReachableBy ClosesAlone s)
    : (s.wasDown = true → s.conn.state_ = .kDisconnected)
        ∧ s.notices.count (.connectionCallback false) ≤ 1 ∧ s.notices.count .closeCallback ≤ 1 := by
  have honce := once_reachable h
  refine ⟨fun hfinished => (honce.finished hfinished).1, ?_, ?_⟩
  . exact Nat.le_trans (Nat.le_add_right _ _) honce.down
  . exact Nat.le_trans (Nat.le_add_right _ _) honce.close

end

instance (callers : Thread Unit → Caller) : Decidable (∀ t, (callers t).stores = false) :=
  decidable_of_iff ((callers .loop).stores = false ∧ (callers (.other ())).stores = false)
    ⟨fun ⟨hloop, hother⟩ t => t.casesOn hloop fun _ => hother, fun h => ⟨h _, h _⟩⟩

instance (s : Race Unit) (a : Label Unit) : Decidable (s.ClosesAlone a) :=
  match a with
  | .resume => inferInstanceAs (Decidable (_ → _))
  | .callback _ _ => inferInstanceAs (Decidable (_ → _))
  | .life _ | .runFunctor _ _ | .destroyServer | .endRemovals | .call _ _ | .advance _ _ _ | .share _ | .drop _ =>
    inferInstanceAs (Decidable True)

-- a thread that is not the loop thread calls `forceClose`, and the loop thread executes `forceCloseInLoop`
def forcedClose : List (Label Unit) :=
  [.share (.other ()), .resume, .call (.other ()) .forceClose, .advance (.other ()) [] (.accepted 0),
    .advance (.other ()) [] (.accepted 0), .life .swap, .runFunctor [] (.accepted 0), .resume, .resume, .resume,
    .resume]

theorem closed_once_forcedClose
    : ∃ s, (system Unit).runChecked (fun s a => s.ClosesAlone a) accepted forcedClose = some s
        ∧ s.wasDown = true ∧ s.conn.state_ = .kDisconnected
        ∧ s.notices.count (.connectionCallback false) ≤ 1 ∧ s.notices.count .closeCallback ≤ 1 := by
  have h : (system Unit).runChecked (fun s a => s.ClosesAlone a) accepted forcedClose = some _ := rfl
  have honce := closed_once (LTS.ReachableBy.runChecked (by simp) (.init accepted_init) h)
  exact ⟨_, h, rfl, honce.1 rfl, honce.2⟩

-- the peer closes while the thread is between its test of `state_` and its store
def closedBetween : List (Label Unit) :=
  [.share (.other ()), .resume, .call (.other ()) .forceClose, .life .swap, .life .endFunctors,
    .life (.poll (some EPOLLHUP)), .life .handleEvent, .callback 0 (.accepted 0), .resume, .resume, .resume,
    .advance (.other ()) [] (.accepted 0)]

-- and `forceCloseInLoop` is executed
def closedAgain : List (Label Unit) :=
  [.advance (.other ()) [] (.accepted 0), .life .swap, .runFunctor [] (.accepted 0), .resume, .resume, .resume,
    .resume]

/--
`kDisconnected` is left, and then the connection is closed a second time.
-/
theorem closed_twice
    : ∃ s t, (system Unit).Reachable s ∧ s.wasDown = true ∧ s.conn.state_ = .kDisconnecting
        ∧ (system Unit).run s closedAgain = some t ∧ t.notices.count (.connectionCallback false) = 2
        ∧ t.notices.count .closeCallback = 2 := by
  have h : (system Unit).run accepted closedBetween = some _ := rfl
  exact ⟨_, _, LTS.Reachable.run (.init accepted_init) h, rfl, rfl, rfl, rfl, rfl⟩

end Race

end TcpConnection

end MyMuduo
