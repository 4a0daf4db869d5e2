import MyMuduo.TcpServer.Lifecycle

/-!
This module contains what every step leaves of the connections: their logs grow, and their channels keep the callbacks
of the constructor.
-/

namespace MyMuduo

universe u

namespace EPollPoller

theorem callbacks_removeChannel {p p' : EPollPoller} {c c' : Channel} (h : p.removeChannel c = some (p', c'))
    : c'.callbacks = c.callbacks := by
  unfold removeChannel at h
  dsimp only at h
  split at h
  . simp only [Option.map_eq_some_iff, Prod.mk.injEq] at h
    obtain ⟨_, _, _, rfl⟩ := h
    rfl
  . simp only [Option.some.injEq, Prod.mk.injEq] at h
    obtain ⟨_, rfl⟩ := h
    rfl

end EPollPoller

namespace TcpConnection

variable {φ : Type u} {bind : Task → φ} {c c' : TcpConnection} {l l' : EventLoop φ} {notices : List Notice}
  {r : TcpConnection × EventLoop φ × List Notice}

theorem closeCallback_handleClose (h : c.handleClose l = some r) : .closeCallback ∈ r.2.2 := by
  simp only [handleClose, Option.map_eq_some_iff] at h
  obtain ⟨_, _, rfl⟩ := h
  simp

/-
The callbacks of the channel are those of the constructor.
-/

theorem callbacks_handleClose (h : c.handleClose l = some (c', l', notices))
    : c'.channel.callbacks = c.channel.callbacks := by
  simp only [handleClose, Option.map_eq_some_iff, Prod.mk.injEq] at h
  obtain ⟨r, hdisable, rfl, _, _⟩ := h
  exact (EPollPoller.updateChannel_cases hdisable).2.2.1

theorem callbacks_connectDestroyed (h : c.connectDestroyed l = some (c', l', notices))
    : c'.channel.callbacks = c.channel.callbacks := by
  simp only [connectDestroyed, Option.bind_eq_some_iff, Option.map_eq_some_iff, Prod.mk.injEq] at h
  obtain ⟨⟨c₁, l₁, notices₁⟩, hclosed, r, hremove, rfl, _⟩ := h
  have hcallbacks : c₁.channel.callbacks = c.channel.callbacks := by
    split at hclosed
    . simp only [Option.map_eq_some_iff, Prod.mk.injEq] at hclosed
      obtain ⟨r, hdisable, rfl, _⟩ := hclosed
      exact (EPollPoller.updateChannel_cases hdisable).2.2.1
    . simp only [Option.some.injEq, Prod.mk.injEq] at hclosed
      obtain ⟨rfl, _⟩ := hclosed
      rfl
  exact (EPollPoller.callbacks_removeChannel hremove).trans hcallbacks

theorem callbacks_runTask {message : List UInt8} {w : WriteResult} {task : Task}
    (h : c.runTask bind l message w task = some r) : r.1.channel.callbacks = c.channel.callbacks := by
  obtain ⟨c', l', notices⟩ := r
  by_cases hopen : task = .connectEstablished
  . subst hopen
    simp only [runTask, connectEstablished, Option.map_map, Option.map_eq_some_iff, Function.comp_apply,
      Prod.mk.injEq] at h
    obtain ⟨r, henable, rfl, _⟩ := h
    exact (EPollPoller.updateChannel_cases henable).2.2.1
  . obtain ⟨hquiet, _⟩ | ⟨_, _, hclose⟩ | ⟨_, hdestroy⟩ := runTask_cases h hopen
    . exact hquiet.channel.callbacks
    . exact callbacks_handleClose hclose
    . exact callbacks_connectDestroyed hdestroy

theorem callbacks_runCallback {n : Int} {w : WriteResult} {callback : Callback}
    (h : c.runCallback bind l n w callback = some r) : r.1.channel.callbacks = c.channel.callbacks := by
  obtain ⟨c', l', notices⟩ := r
  obtain hquiet | ⟨_, hclose⟩ := runCallback_cases h
  . exact hquiet.channel.callbacks
  . exact callbacks_handleClose hclose

end TcpConnection

namespace TcpServer

open TcpConnection (Task Notice)

namespace ServerLoops

variable {s s' s₁ : ServerLoops} {i : Nat} {x : Accepted} {a : Label}

theorem conns_removeConnectionInLoop (hx : s.conns i = some x)
    : (s.removeConnectionInLoop i).conns
        = Function.update s.conns i (some { x with log := x.log ++ [.removeConnectionInLoop] }) := by
  rw [removeConnectionInLoop_eq hx]
  rfl

theorem conns_removeConnection (hx : s.conns i = some x) (thread : Nat)
    : ∃ more, (s.removeConnection thread i).conns
        = Function.update s.conns i (some { x with log := x.log ++ more }) := by
  unfold removeConnection
  split
  . exact ⟨_, conns_removeConnectionInLoop (s := s.useServer) hx⟩
  . refine ⟨[], ?_⟩
    rw [List.append_nil, ← hx, Function.update_eq_self]
    rfl

theorem conns_finish (s : ServerLoops) (i : Nat) (x : Accepted) (events : List LifeEvent)
    (r : TcpConnection × EventLoop ServerTask × List Notice)
    : ∃ x', (s.finish i x events r).conns = Function.update s.conns i (some x') ∧ x'.conn = r.1
        ∧ x.log ++ events <+: x'.log ∧ (.closeCallback ∈ r.2.2 → .handleClose ∈ x'.log) := by
  unfold finish
  split
  . obtain ⟨more, heq⟩ := conns_removeConnection
      (s := s.put i { x with log := x.log ++ events ++ [.handleClose] } r.1 r.2.1) (conns_put ..) x.loop_
    refine ⟨{ x with log := x.log ++ events ++ [.handleClose] ++ more, conn := r.1 }, ?_, rfl, ?_, ?_⟩
    . rw [heq]
      exact Function.update_idem ..
    . exact ⟨[.handleClose] ++ more, (List.append_assoc ..).symm⟩
    . simp
  . next hnot => exact ⟨_, rfl, rfl, List.prefix_refl _, fun hmem => absurd (List.contains_iff_mem.mpr hmem) hnot⟩

theorem mem_logOf {event : LifeEvent} : event ∈ s.logOf i ↔ ∃ x, s.conns i = some x ∧ event ∈ x.log := by
  unfold logOf
  cases s.conns i <;> simp

def Subscribed (s : ServerLoops) : Prop :=
  ∀ i x, s.conns i = some x → x.conn.channel.callbacks = [.read, .write, .close, .error]

/--
The connections go on: their logs grow, and their channels keep the callbacks.
-/
structure Continues (s s' : ServerLoops) : Prop where
  conn : ∀ j y, s.conns j = some y → ∃ y', s'.conns j = some y' ∧ y.log <+: y'.log
    ∧ y'.conn.channel.callbacks = y.conn.channel.callbacks
  fresh : ∀ j y', s.conns j = none → s'.conns j = some y' →
    y'.conn.channel.callbacks = [.read, .write, .close, .error]

theorem Continues.of_eq (hconns : s'.conns = s.conns) : Continues s s' := by
  refine ⟨fun j y hy => ⟨y, hconns ▸ hy, List.prefix_refl _, rfl⟩, ?_⟩
  intro j y' hnone hy'
  rw [hconns, hnone] at hy'
  cases hy'

theorem Continues.of_update (hx : s.conns i = some x) {x' : Accepted}
    (hconns : s'.conns = Function.update s.conns i (some x')) (hlog : x.log <+: x'.log)
    (hcallbacks : x'.conn.channel.callbacks = x.conn.channel.callbacks) : Continues s s' := by
  refine ⟨?_, ?_⟩
  . intro j y hy
    by_cases heq : j = i
    . subst heq
      rw [hx, Option.some.injEq] at hy
      subst hy
      exact ⟨x', by rw [hconns, Function.update_self], hlog, hcallbacks⟩
    . exact ⟨y, by rw [hconns, Function.update_of_ne heq, hy], List.prefix_refl _, rfl⟩
  . intro j y' hnone hy'
    rw [hconns] at hy'
    by_cases heq : j = i
    . rw [heq, hx] at hnone
      cases hnone
    . rw [Function.update_of_ne heq, hnone] at hy'
      cases hy'

theorem Continues.of_finish (s₁ : ServerLoops) (hx : s.conns i = some x) (hconns : s₁.conns = s.conns)
    {events : List LifeEvent} {r : TcpConnection × EventLoop ServerTask × List Notice}
    (hcallbacks : r.1.channel.callbacks = x.conn.channel.callbacks) : Continues s (s₁.finish i x events r) := by
  obtain ⟨x', heq, hconn, hlog, _⟩ := conns_finish s₁ i x events r
  rw [hconns] at heq
  exact .of_update hx heq ((List.prefix_append _ _).trans hlog) (hconn ▸ hcallbacks)

theorem Continues.newConnection (hnone : s.conns s.server.nextConnId_ = none) {sockfd : Fd} {highWaterMark : Bool}
    (hnext : s.newConnection sockfd highWaterMark = some s') : Continues s s' := by
  have hupdated : ∃ x', s'.conns = Function.update s.conns s.server.nextConnId_ (some x')
      ∧ x'.conn.channel.callbacks = [.read, .write, .close, .error] := by
    simp only [ServerLoops.newConnection] at hnext
    split at hnext
    . simp only [Option.map_eq_some_iff] at hnext
      obtain ⟨r, hrun, rfl⟩ := hnext
      obtain ⟨x', heq, hconn, _⟩ := conns_finish (s.insertConnection (s.accepted sockfd highWaterMark))
        s.server.nextConnId_ (s.accepted sockfd highWaterMark) [.connectEstablished] r
      refine ⟨x', heq.trans (Function.update_idem ..), ?_⟩
      rw [hconn]
      exact TcpConnection.callbacks_runTask hrun
    . simp only [Option.some.injEq] at hnext
      subst hnext
      exact ⟨s.accepted sockfd highWaterMark, rfl, rfl⟩
  obtain ⟨x', hconns, hcallbacks⟩ := hupdated
  refine ⟨?_, ?_⟩
  . intro j y hy
    have hne : j ≠ s.server.nextConnId_ := by
      rintro rfl
      rw [hnone] at hy
      cases hy
    exact ⟨y, by rw [hconns, Function.update_of_ne hne, hy], List.prefix_refl _, rfl⟩
  . intro j y' hnone' hy'
    rw [hconns, Function.update_apply, hnone'] at hy'
    split at hy'
    . simp only [Option.some.injEq] at hy'
      exact hy' ▸ hcallbacks
    . cases hy'

theorem continues (h : s.Wired) (hstep : system.step s a = some s') : Continues s s' := by
  obtain ⟨_, hnext⟩ := LTS.guarded_step.mp hstep
  cases a with
  | newConnection sockfd highWaterMark =>
    refine .newConnection ?_ hnext
    cases hx : s.conns s.server.nextConnId_ with
    | none => rfl
    | some x => exact absurd (h.fresh _ x hx) (Nat.lt_irrefl _)
  | handleEvent k =>
    simp only [next, ServerLoops.handleEvent] at hnext
    split at hnext
    . cases hnext
    . simp only [Option.map_eq_some_iff] at hnext
      obtain ⟨_, _, rfl⟩ := hnext
      exact .of_eq rfl
  | callback k n w =>
    simp only [next, ServerLoops.callback] at hnext
    split at hnext
    . cases hnext
    . next i _ todo _ =>
      simp only [Option.bind_eq_some_iff, Option.map_eq_some_iff] at hnext
      obtain ⟨x, hx, r, hrun, rfl⟩ := hnext
      have hconn : s.conns i = some x := hx
      exact .of_finish (s.setTodo k todo) hconn rfl (TcpConnection.callbacks_runCallback hrun)
  | runFunctor k message w =>
    simp only [next, ServerLoops.runFunctor] at hnext
    split at hnext
    . cases hnext
    . next functors hfunctors =>
      split at hnext
      . next i =>
        simp only [Option.some.injEq] at hnext
        subst hnext
        obtain ⟨_, x, hx⟩ := h.removal k i (by simp [queueOf, hfunctors])
        exact .of_update hx (conns_removeConnectionInLoop (s := s.setFunctors k functors) hx)
          (List.prefix_append _ _) rfl
      . next i _ =>
        simp only [Option.bind_eq_some_iff, Option.map_eq_some_iff] at hnext
        obtain ⟨x, hx, r, hrun, rfl⟩ := hnext
        have hconn : s.conns i = some x := hx
        exact .of_finish (s.setFunctors k functors) hconn rfl (TcpConnection.callbacks_runTask hrun)
  | send i isInLoopThread message contents w =>
    simp only [next, Option.bind_eq_some_iff, Option.map_eq_some_iff] at hnext
    obtain ⟨x, hx, ⟨c', l'⟩, hsend, rfl⟩ := hnext
    exact .of_update hx rfl (List.prefix_refl _) (TcpConnection.quiet_send hsend).channel.callbacks
  | shutdown i isInLoopThread =>
    simp only [next, Option.map_eq_some_iff] at hnext
    obtain ⟨x, hx, rfl⟩ := hnext
    obtain ⟨c', l', heq, hchannel, _⟩ := TcpConnection.shutdown_spec (fun f => ServerTask.conn i (.own f))
      isInLoopThread x.conn (s.loops x.loop_).loop
    rw [heq]
    exact .of_update hx rfl (List.prefix_refl _) (by rw [hchannel])
  | forceClose i isInLoopThread =>
    simp only [next, Option.map_eq_some_iff] at hnext
    obtain ⟨x, hx, rfl⟩ := hnext
    obtain ⟨c', l', heq, hchannel, _⟩ := TcpConnection.forceClose_spec (ServerTask.conn i)
      isInLoopThread x.conn (s.loops x.loop_).loop
    rw [heq]
    exact .of_update hx rfl (List.prefix_refl _) (by rw [hchannel])
  | destroyConnection i =>
    simp only [next, ServerLoops.destroyConnection, Option.bind_eq_some_iff] at hnext
    obtain ⟨x, hx, hnext⟩ := hnext
    split at hnext
    . simp only [Option.map_eq_some_iff] at hnext
      obtain ⟨r, hrun, rfl⟩ := hnext
      exact .of_finish { s with server := s.server.erase x.name } hx rfl (TcpConnection.callbacks_connectDestroyed hrun)
    . simp only [Option.some.injEq] at hnext
      subst hnext
      exact .of_eq rfl
  | poll | swap | endFunctors | destroy | endDestroy =>
    simp only [next, Option.some.injEq] at hnext
    subst hnext
    exact .of_eq rfl

theorem Continues.subscribed (h : Continues s s') (hsubscribed : s.Subscribed) : s'.Subscribed := by
  intro j y' hy'
  cases hy : s.conns j with
  | none => exact h.fresh j y' hy hy'
  | some y =>
    obtain ⟨y'', hy'', _, hcallbacks⟩ := h.conn j y hy
    rw [hy', Option.some.injEq] at hy''
    subst hy''
    exact hcallbacks.trans (hsubscribed j y hy)

theorem Continues.mem_logOf {event : LifeEvent} (h : Continues s s') (hmem : event ∈ s.logOf i)
    : event ∈ s'.logOf i := by
  obtain ⟨x, hx, hlog⟩ := ServerLoops.mem_logOf.mp hmem
  obtain ⟨x', hx', hprefix, _⟩ := h.conn i x hx
  exact ServerLoops.mem_logOf.mpr ⟨x', hx', hprefix.subset hlog⟩

theorem subscribed_reachable (hs : system.Reachable s) : s.Subscribed := by
  induction hs with
  | init hinit =>
    intro i x hx
    rw [hinit.2.1 i] at hx
    cases hx
  | step hs _ hstep ih => exact (continues (wired_reachable hs) hstep).subscribed ih

end ServerLoops

end TcpServer

end MyMuduo
