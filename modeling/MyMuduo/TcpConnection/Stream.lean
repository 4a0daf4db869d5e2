import MyMuduo.TcpConnection.Output

/-!
This module contains the runs of the loop thread on one established connection, and the integrity of
the byte stream that it hands to the kernel.
-/

namespace MyMuduo

universe u

namespace TcpConnection

variable {φ : Type u} {bind : Functor → φ}

/--
`kept` is history: the messages given to `sendInLoop`, without those that fail with `EPIPE` or `ECONNRESET`.
-/
structure Sender (φ : Type u) where
  conn : TcpConnection
  loop : EventLoop φ
  kept : List (List UInt8)

namespace Sender

inductive Label where
  | sendInLoop (message : List UInt8) (w : WriteResult)
  | handleWrite (w : WriteResult)
  -- the store of a call of `shutdown` on any thread, and the functor that it queues
  | shutdown
  | shutdownInLoop

-- a connection as `connectEstablished` leaves it, with any callbacks set
def Established (s : Sender φ) : Prop :=
  ∃ channel sockfd writeComplete highWaterMark l, (l.poller.epoll sockfd).isSome = false
    ∧ ((new channel sockfd).setCallbacks writeComplete highWaterMark).connectEstablished l =
        some (s.conn, s.loop)
    ∧ s.kept = []

def enabled (s : Sender φ) : Label → Bool
  | .sendInLoop message w => w.fits message.length
  | .handleWrite w => w.fits s.conn.outputBuffer.readableBytes
  | .shutdown => s.conn.state_ = .kConnected
  | .shutdownInLoop => true

def next (bind : Functor → φ) (s : Sender φ) : Label → Option (Sender φ)
  | .sendInLoop message w =>
    (s.conn.sendInLoop bind s.loop message w).map fun (conn, loop) =>
      { conn := conn
        loop := loop
        kept := if s.conn.mayMiss w then s.kept else s.kept ++ [message] }
  | .handleWrite w =>
    (s.conn.handleWrite bind s.loop w).map fun (conn, loop) =>
      { s with conn := conn, loop := loop }
  | .shutdown => some { s with conn := s.conn.setState .kDisconnecting }
  | .shutdownInLoop => some { s with conn := s.conn.shutdownInLoop }

def system (bind : Functor → φ) : LTS (Sender φ) Label :=
  .guarded Established enabled (next bind)

structure Inv (s : Sender φ) : Prop extends s.conn.Output s.loop where
  stream : s.conn.accepted ++ s.conn.outputBuffer.readable = s.kept.flatten
  open_ : s.conn.state_ ≠ .kDisconnected

theorem Inv.shutdownInLoop {s : Sender φ} (h : s.Inv)
    : Inv { s with conn := s.conn.shutdownInLoop } := by
  unfold TcpConnection.shutdownInLoop
  split
  . exact
      { h with
        stream := by
          rw [← h.stream]
          simp [accepted, SocketCall.accepted] }
  . exact h

theorem Inv.shutdownIfDisconnecting {s : Sender φ} (h : s.Inv)
    : Inv { s with conn := s.conn.shutdownIfDisconnecting } := by
  unfold TcpConnection.shutdownIfDisconnecting
  split
  . exact h.shutdownInLoop
  . exact h

theorem Inv.init {s : Sender φ} (h : s.Established) : s.Inv := by
  obtain ⟨_, _, _, _, _, hfd, hnew, hkept⟩ := h
  obtain ⟨houtput, hstate, _, hempty, haccepted⟩ := connectEstablished_new hfd hnew
  exact
    { houtput with
      stream := by simp [haccepted, hempty, hkept]
      open_ := by simp [hstate] }

theorem Inv.sendInLoop (bind : Functor → φ) {s : Sender φ} (h : s.Inv) (message : List UInt8) (w : WriteResult)
    : ∃ s', next bind s (.sendInLoop message w) = some s' ∧ s'.Inv := by
  obtain ⟨conn, loop, heq, hsent⟩ := sendInLoop_spec bind h.toOutput message w h.open_
  have hframe := sendInLoop_frame heq
  refine ⟨_, by simp only [next, heq, Option.map_some]; rfl, ?_⟩
  exact
    { hsent.toOutput with
      stream := by
        rw [hsent.stream, h.stream, faultError_eq]
        split <;> simp
      open_ := by
        rw [hframe.state_]
        exact h.open_ }

theorem Inv.handleWrite (bind : Functor → φ) {s : Sender φ} (h : s.Inv) (w : WriteResult)
    : ∃ s', next bind s (.handleWrite w) = some s' ∧ s'.Inv := by
  obtain ⟨conn, loop, drained, heq, hsent, _⟩ := drain_spec bind h.toOutput w
  have hframe := drain_frame heq
  have hdrained : { s with conn := conn, loop := loop }.Inv :=
    { hsent.toOutput with
      stream := by
        rw [hsent.stream, h.stream]
        simp
      open_ := by
        rw [hframe.state_]
        exact h.open_ }
  refine ⟨_, by simp only [next, TcpConnection.handleWrite, heq, Option.map_some]; rfl, ?_⟩
  cases drained with
  | false => exact hdrained
  | true => exact hdrained.shutdownIfDisconnecting

theorem Inv.step {s s' : Sender φ} {a : Label} (h : s.Inv)
    (hstep : (system bind).step s a = some s') : s'.Inv := by
  obtain ⟨_, hnext⟩ := LTS.guarded_step.mp hstep
  cases a with
  | sendInLoop message w =>
    obtain ⟨s₁, heq, hinv⟩ := h.sendInLoop bind message w
    rw [heq, Option.some.injEq] at hnext
    exact hnext ▸ hinv
  | handleWrite w =>
    obtain ⟨s₁, heq, hinv⟩ := h.handleWrite bind w
    rw [heq, Option.some.injEq] at hnext
    exact hnext ▸ hinv
  | shutdown =>
    simp only [next, Option.some.injEq] at hnext
    subst hnext
    exact { h with open_ := by simp [setState] }
  | shutdownInLoop =>
    simp only [next, Option.some.injEq] at hnext
    subst hnext
    exact h.shutdownInLoop

theorem inv_of_reachable {s : Sender φ} (h : (system bind).Reachable s) : s.Inv :=
  LTS.Reachable.invariant Inv (fun _ => Inv.init) (fun _ _ _ => Inv.step) h

-- no step of such a run ends the process
theorem step_total {s : Sender φ} (h : (system bind).Reachable s) {a : Label}
    (ha : s.enabled a = true) : ∃ s', (system bind).step s a = some s' := by
  simp only [LTS.guarded_step, system, ha, true_and]
  cases a with
  | sendInLoop message w =>
    obtain ⟨s', heq, _⟩ := (inv_of_reachable h).sendInLoop bind message w
    exact ⟨s', heq⟩
  | handleWrite w =>
    obtain ⟨s', heq, _⟩ := (inv_of_reachable h).handleWrite bind w
    exact ⟨s', heq⟩
  | shutdown => exact ⟨_, rfl⟩
  | shutdownInLoop => exact ⟨_, rfl⟩

theorem stream_intact {s : Sender φ} (h : (system bind).Reachable s)
    : s.conn.accepted ++ s.conn.outputBuffer.readable = s.kept.flatten
      ∧ (s.conn.channel.isWriting = true ↔ s.conn.outputBuffer.readable ≠ []) :=
  ⟨(inv_of_reachable h).stream, (inv_of_reachable h).writing⟩

def service (s : Sender φ) : Fifo UInt8 where
  arrived := s.kept.flatten
  served := s.conn.accepted

theorem accepted_shutdownInLoop (c : TcpConnection) : c.shutdownInLoop.accepted = c.accepted := by
  unfold TcpConnection.shutdownInLoop
  split
  . simp [accepted, SocketCall.accepted]
  . rfl

theorem accepted_shutdownIfDisconnecting (c : TcpConnection)
    : c.shutdownIfDisconnecting.accepted = c.accepted := by
  unfold shutdownIfDisconnecting
  split
  . apply accepted_shutdownInLoop
  . rfl

theorem Inv.step_history {s s' : Sender φ} {a : Label} (h : s.Inv)
    (hstep : (system bind).step s a = some s')
    : s.kept.flatten <+: s'.kept.flatten ∧ s.conn.accepted <+: s'.conn.accepted := by
  obtain ⟨_, hnext⟩ := LTS.guarded_step.mp hstep
  cases a with
  | sendInLoop message w =>
    obtain ⟨conn, loop, heq, hsent⟩ := sendInLoop_spec bind h.toOutput message w h.open_
    simp only [next, heq, Option.map_some, Option.some.injEq] at hnext
    subst hnext
    refine ⟨?_, (sendInLoop_frame heq).accepted⟩
    dsimp only
    split
    . apply List.prefix_refl
    . simp
  | handleWrite w =>
    obtain ⟨conn, loop, drained, heq, hsent, _⟩ := drain_spec bind h.toOutput w
    simp only [next, TcpConnection.handleWrite, heq, Option.map_some, Option.some.injEq] at hnext
    subst hnext
    refine ⟨List.prefix_refl _, ?_⟩
    dsimp only
    split
    . rw [accepted_shutdownIfDisconnecting]
      exact (drain_frame heq).accepted
    . exact (drain_frame heq).accepted
  | shutdown =>
    simp only [next, Option.some.injEq] at hnext
    subst hnext
    exact ⟨List.prefix_refl _, List.prefix_refl _⟩
  | shutdownInLoop =>
    simp only [next, Option.some.injEq] at hnext
    subst hnext
    exact ⟨List.prefix_refl _, ⟨[], by simp [accepted_shutdownInLoop]⟩⟩

-- for the peer the connection is a first-in first-out service of bytes
theorem refines_fifo : (system bind).Refines (Fifo.system UInt8) service where
  init := by
    intro s hinit
    obtain ⟨_, _, _, _, _, hfd, hnew, hkept⟩ := hinit
    obtain ⟨_, _, _, _, haccepted⟩ := connectEstablished_new hfd hnew
    simp [Fifo.system, service, hkept, haccepted]
  step := by
    intro s a s' hs hstep
    have hinv := inv_of_reachable hs
    obtain ⟨⟨arriving, harriving⟩, ⟨serving, hserving⟩⟩ := hinv.step_history hstep
    have hserve : (service s).served ++ serving ++ s'.conn.outputBuffer.readable =
        (service s).arrived ++ arriving := by
      rw [service, hserving, harriving]
      exact (hinv.step hstep).stream
    right
    refine ⟨⟨arriving, serving.length⟩, ?_⟩
    have hservice : service s' = ⟨s.kept.flatten ++ arriving, s.conn.accepted ++ serving⟩ := by
      rw [harriving, hserving]
      rfl
    rw [hservice]
    exact Fifo.step_serve hserve

-- a connection on descriptor 7 with both callbacks set
def established : Sender Functor :=
  let (conn, loop) := (((new 2 7).setCallbacks true true).connectEstablished (.constructed _)).get rfl
  { conn := conn, loop := loop, kept := [] }

theorem established_init : established.Established :=
  ⟨2, 7, true, true, .constructed _, rfl, rfl, rfl⟩

-- a message split between the direct write and two drains, one of which makes no progress
def partialWrites : List Label :=
  [.sendInLoop [1, 2, 3, 4] (.accepted 1), .sendInLoop [5] (.accepted 0), .handleWrite (.accepted 2),
    .shutdown, .handleWrite (.failed EAGAIN)]

def partlyWritten : Sender Functor :=
  ((system id).run established partialWrites).get (by decide +kernel)

theorem stream_intact_partialWrites
    : partlyWritten.conn.accepted = [1, 2, 3] ∧ partlyWritten.kept = [[1, 2, 3, 4], [5]]
        ∧ partlyWritten.conn.accepted ++ partlyWritten.conn.outputBuffer.readable =
            partlyWritten.kept.flatten
        ∧ (partlyWritten.conn.channel.isWriting = true ↔
            partlyWritten.conn.outputBuffer.readable ≠ []) := by
  refine ⟨by decide +kernel, by decide +kernel, ?_⟩
  have hreachable : (system id).Reachable partlyWritten :=
    LTS.Reachable.run (.init established_init) (Option.some_get _).symm
  exact stream_intact hreachable

end Sender

end TcpConnection

end MyMuduo
