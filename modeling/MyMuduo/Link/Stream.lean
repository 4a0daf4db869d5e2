import MyMuduo.Link.Basic
import MyMuduo.TcpConnection.Stream

/-!
This module contains what a step of a connection does to the stream of the bytes it has to send: it takes on a
message or none, it moves bytes from the output buffer to the kernel, and behind the half-close nothing moves.
-/

namespace MyMuduo

universe u

namespace TcpConnection

variable {φ : Type u} {bind : Functor → φ} {c c' c₁ : TcpConnection} {l l' : EventLoop φ}

-- while the connection is not down `EPOLLOUT` is watched for exactly while bytes wait, and a half-closed one
-- has none
def Settled (c : TcpConnection) : Prop :=
  c.state_ ≠ .kDisconnected →
    (c.channel.isWriting = true ↔ c.outputBuffer.readable ≠ [])
      ∧ (c.halfClosed = true → c.outputBuffer.readable = [])

/--
The connection has taken on `given`, and may have moved bytes to the kernel, closed its side or gone down.
-/
structure Advanced (c : TcpConnection) (given : List UInt8) (c' : TcpConnection) : Prop where
  stream : c'.accepted ++ c'.outputBuffer.readable = c.accepted ++ c.outputBuffer.readable ++ given
  accepted : c.accepted <+: c'.accepted
  closed : c.halfClosed = true → c'.halfClosed = true ∧ c'.accepted = c.accepted ∧ given = []
  down : c.state_ = .kDisconnected → c'.state_ = .kDisconnected ∧ c'.outputBuffer = c.outputBuffer
    ∧ given = []
  settled : c'.Settled

theorem Settled.output (h : c.Settled) (hopen : c.state_ ≠ .kDisconnected)
    (hsynced : c.channel.Synced l.poller) : c.Output l :=
  ⟨hsynced, (h hopen).1⟩

theorem Settled.not_isWriting (h : c.Settled) (hopen : c.state_ ≠ .kDisconnected) (hclosed : c.halfClosed = true)
    : c.channel.isWriting = false := by
  obtain ⟨hwriting, hempty⟩ := h hopen
  rw [← Bool.not_eq_true, hwriting, hempty hclosed]
  exact fun hne => hne rfl

/--
A handler that leaves the socket and the output buffer alone.
-/
theorem Settled.kept (h : c.Settled) (hsocket : c'.socket = c.socket)
    (hbuffer : c'.outputBuffer = c.outputBuffer)
    (hdown : c.state_ = .kDisconnected → c'.state_ = .kDisconnected)
    (hwriting : c'.state_ ≠ .kDisconnected → c'.channel.isWriting = c.channel.isWriting)
    : Advanced c [] c' := by
  have haccepted : c'.accepted = c.accepted := by
    rw [accepted, accepted, hsocket]
  have hclosed : c'.halfClosed = c.halfClosed := by
    rw [halfClosed, halfClosed, hsocket]
  refine ⟨?_, ?_, ?_, fun hstate => ⟨hdown hstate, hbuffer, rfl⟩, ?_⟩
  . rw [haccepted, hbuffer, List.append_nil]
  . exact haccepted ▸ List.prefix_refl _
  . intro hhalf
    exact ⟨hclosed.trans hhalf, haccepted, rfl⟩
  . intro hopen
    rw [hwriting hopen, hbuffer, hclosed]
    exact h fun hstate => hopen (hdown hstate)

theorem Settled.refl (h : c.Settled) : Advanced c [] c :=
  h.kept rfl rfl id fun _ => rfl

theorem Advanced.trans {given₁ given₂ : List UInt8} (h₁ : Advanced c given₁ c₁) (h₂ : Advanced c₁ given₂ c')
    : Advanced c (given₁ ++ given₂) c' := by
  refine ⟨?_, h₁.accepted.trans h₂.accepted, ?_, ?_, h₂.settled⟩
  . rw [h₂.stream, h₁.stream, List.append_assoc _ given₁ given₂]
  . intro hclosed
    obtain ⟨hclosed₁, haccepted₁, hgiven₁⟩ := h₁.closed hclosed
    obtain ⟨hclosed₂, haccepted₂, hgiven₂⟩ := h₂.closed hclosed₁
    exact ⟨hclosed₂, haccepted₂.trans haccepted₁, by rw [hgiven₁, hgiven₂, List.append_nil]⟩
  . intro hdown
    obtain ⟨hdown₁, hbuffer₁, hgiven₁⟩ := h₁.down hdown
    obtain ⟨hdown₂, hbuffer₂, hgiven₂⟩ := h₂.down hdown₁
    exact ⟨hdown₂, hbuffer₂.trans hbuffer₁, by rw [hgiven₁, hgiven₂, List.append_nil]⟩

theorem Settled.shutdownInLoop (h : c.Settled) : Advanced c [] c.shutdownInLoop := by
  have haccepted := Sender.accepted_shutdownInLoop c
  unfold TcpConnection.shutdownInLoop at haccepted ⊢
  split
  . next hidle =>
    rw [if_pos hidle] at haccepted
    rw [Bool.not_eq_true'] at hidle
    refine ⟨?_, ?_, fun _ => ⟨by simp [halfClosed], haccepted, rfl⟩, fun hstate => ⟨hstate, rfl, rfl⟩, ?_⟩
    . rw [haccepted, List.append_nil]
    . exact haccepted ▸ List.prefix_refl _
    . intro hopen
      obtain ⟨hwriting, _⟩ := h hopen
      refine ⟨hwriting, fun _ => ?_⟩
      by_contra hwaiting
      rw [hwriting.mpr hwaiting] at hidle
      cases hidle
  . exact h.refl

theorem Settled.shutdownIfDisconnecting (h : c.Settled) : Advanced c [] c.shutdownIfDisconnecting := by
  unfold TcpConnection.shutdownIfDisconnecting
  split
  . exact h.shutdownInLoop
  . exact h.refl

theorem Frame.halfClosed (h : Frame bind c l c' l') : c'.halfClosed = c.halfClosed := by
  obtain ⟨calls, hcalls, hnot⟩ := h.writes
  simp [TcpConnection.halfClosed, hcalls, hnot]

-- a message on a half-closed socket is given up
theorem Settled.faultError (h : c.Settled) (hopen : c.state_ ≠ .kDisconnected) (hclosed : c.halfClosed = true)
    : c.faultError (.failed EPIPE) = true := by
  have hempty := (h hopen).2 hclosed
  have hidle := h.not_isWriting hopen hclosed
  simp [TcpConnection.faultError, writesDirectly, ByteBuffer.readableBytes_eq, hidle, hempty, EPIPE, EWOULDBLOCK,
    EAGAIN]

/--
What is taken on while the connection is up.
-/
theorem Settled.sent {given : List UInt8} (h : c.Settled) (hopen : c.state_ ≠ .kDisconnected)
    (hsent : Sent c given c' l') (hframe : Frame bind c l c' l') (hgiven : c.halfClosed = true → given = [])
    : Advanced c given c' := by
  have hnothing : c.halfClosed = true → c'.accepted = c.accepted ∧ c'.outputBuffer.readable = [] := by
    intro hclosed
    obtain ⟨more, hmore⟩ := hframe.accepted
    have hstream := hsent.stream
    rw [hgiven hclosed, (h hopen).2 hclosed, List.append_nil, List.append_nil, ← hmore, List.append_assoc,
      List.append_right_eq_self, List.append_eq_nil_iff] at hstream
    rw [← hmore, hstream.1, List.append_nil]
    exact ⟨rfl, hstream.2⟩
  refine ⟨hsent.stream, hframe.accepted, ?_, fun hstate => absurd hstate hopen, ?_⟩
  . intro hclosed
    exact ⟨hframe.halfClosed.trans hclosed, (hnothing hclosed).1, hgiven hclosed⟩
  . intro _
    refine ⟨hsent.writing, fun hclosed => ?_⟩
    rw [hframe.halfClosed] at hclosed
    exact (hnothing hclosed).2

theorem Settled.sendInLoop {message : List UInt8} {w : WriteResult} (h : c.Settled)
    (hsynced : c.channel.Synced l.poller) (hfails : c.halfClosed = true → w = .failed EPIPE)
    (hsend : c.sendInLoop bind l message w = some (c', l'))
    : Advanced c (if c.state_ = .kDisconnected ∨ c.mayMiss w = true then [] else message) c' := by
  rw [← faultError_eq]
  by_cases hstate : c.state_ = .kDisconnected
  . rw [sendInLoop_of_disconnected bind hstate, Option.some.injEq, Prod.mk.injEq] at hsend
    rw [if_pos (.inl hstate), ← hsend.1]
    exact h.refl
  . have hframe := sendInLoop_frame hsend
    obtain ⟨_, _, heq, hsent⟩ := sendInLoop_spec bind (h.output hstate hsynced) message w hstate
    rw [hsend, Option.some.injEq, Prod.mk.injEq] at heq
    obtain ⟨rfl, rfl⟩ := heq
    have hgiven : c.halfClosed = true → (if c.faultError w then [] else message) = [] := by
      intro hclosed
      rw [hfails hclosed, h.faultError hstate hclosed, if_pos rfl]
    have hadvanced := h.sent hstate hsent hframe hgiven
    simp only [hstate, false_or]
    exact hadvanced

theorem Settled.handleWrite {w : WriteResult} (h : c.Settled) (hsynced : c.channel.Synced l.poller)
    (hidle : c.state_ = .kDisconnected → c.channel.isWriting = false)
    (hwrite : c.handleWrite bind l w = some (c', l')) : Advanced c [] c' := by
  by_cases hwriting : c.channel.isWriting = true
  . have hopen : c.state_ ≠ .kDisconnected := by
      intro hstate
      rw [hidle hstate] at hwriting
      cases hwriting
    obtain ⟨c₁, l₁, drained, hdrain, hsent, _⟩ := drain_spec bind (h.output hopen hsynced) w
    simp only [TcpConnection.handleWrite, hdrain, Option.map_some, Option.some.injEq, Prod.mk.injEq] at hwrite
    have hadvanced := h.sent hopen hsent (drain_frame hdrain) fun _ => rfl
    rw [← hwrite.1]
    split
    . exact hadvanced.trans hadvanced.settled.shutdownIfDisconnecting
    . exact hadvanced
  . rw [Bool.not_eq_true] at hwriting
    rw [handleWrite_of_not_isWriting bind hwriting, Option.some.injEq, Prod.mk.injEq] at hwrite
    rw [← hwrite.1]
    exact h.refl

theorem Settled.handleClose {notices : List Notice} (h : c.Settled)
    (hclose : c.handleClose l = some (c', l', notices)) : Advanced c [] c' := by
  simp only [TcpConnection.handleClose, Option.map_eq_some_iff, Prod.mk.injEq] at hclose
  obtain ⟨_, _, rfl, _, _⟩ := hclose
  exact h.kept rfl rfl (fun _ => rfl) fun hopen => absurd rfl hopen

theorem kept_connectDestroyed {notices : List Notice} (hdestroy : c.connectDestroyed l = some (c', l', notices))
    : c'.socket = c.socket ∧ c'.outputBuffer = c.outputBuffer := by
  simp only [connectDestroyed, Option.bind_eq_some_iff, Option.map_eq_some_iff, Prod.mk.injEq] at hdestroy
  obtain ⟨⟨c₁, l₁, _⟩, hdown, ⟨poller, channel⟩, _, rfl, _⟩ := hdestroy
  split at hdown
  . simp only [Option.map_eq_some_iff, Prod.mk.injEq] at hdown
    obtain ⟨_, _, rfl, _, _⟩ := hdown
    exact ⟨rfl, rfl⟩
  . simp only [Option.some.injEq, Prod.mk.injEq] at hdown
    obtain ⟨rfl, _, _⟩ := hdown
    exact ⟨rfl, rfl⟩

theorem Settled.connectDestroyed {notices : List Notice} (h : c.Settled) (hsynced : c.channel.Synced l.poller)
    (hindex : c.state_ = .kConnected → c.channel.index = .kAdded)
    (hdestroy : c.connectDestroyed l = some (c', l', notices)) : Advanced c [] c' := by
  obtain ⟨hsocket, hbuffer⟩ := kept_connectDestroyed hdestroy
  obtain ⟨_, _, heq, hstate, hevents, _⟩ := connectDestroyed_spec hsynced hindex
  rw [hdestroy, Option.some.injEq, Prod.mk.injEq] at heq
  obtain ⟨rfl, _⟩ := heq
  refine h.kept hsocket hbuffer ?_ ?_
  . intro hdown
    rw [hstate, hdown]
    rfl
  . intro hopen
    rw [hstate] at hopen
    split at hopen
    . exact absurd rfl hopen
    . next hdown =>
      rw [if_neg hdown] at hevents
      rw [Channel.isWriting, hevents]
      rfl

theorem Settled.shutdown {bind : Functor → φ} (h : c.Settled) (isInLoopThread : Bool) (l : EventLoop φ)
    : Advanced c [] (c.shutdown bind isInLoopThread l).1 := by
  unfold TcpConnection.shutdown
  split
  . next hstate =>
    have hasked : Advanced c [] (c.setState .kDisconnecting) :=
      h.kept rfl rfl (fun hdown => by rw [hstate] at hdown; cases hdown) fun _ => rfl
    split
    . exact hasked.trans hasked.settled.shutdownInLoop
    . exact hasked
  . exact h.refl

theorem Settled.forceClose {bind : Task → φ} (h : c.Settled) (isInLoopThread : Bool) (l : EventLoop φ)
    : Advanced c [] (c.forceClose bind isInLoopThread l).1 := by
  unfold TcpConnection.forceClose
  split
  . next hstate =>
    refine h.kept rfl rfl ?_ fun _ => rfl
    intro hdown
    rw [hdown] at hstate
    simp at hstate
  . exact h.refl

-- a callback of the channel
theorem Settled.runCallback {l l' : EventLoop Task} {n : Int} {w : WriteResult} {callback : Callback}
    {notices : List Notice} (h : c.Settled) (hsound : Life.Sound c l)
    (hrun : c.runCallback id l n w callback = some (c', l', notices)) : Advanced c [] c' := by
  cases callback with
  | read =>
    simp only [TcpConnection.runCallback, handleRead] at hrun
    split at hrun
    . simp only [Option.some.injEq, Prod.mk.injEq] at hrun
      exact hrun.1 ▸ h.refl
    . split at hrun
      . exact h.handleClose hrun
      . simp only [Option.some.injEq, Prod.mk.injEq] at hrun
        exact hrun.1 ▸ h.refl
  | write =>
    simp only [TcpConnection.runCallback, Option.map_eq_some_iff, Prod.mk.injEq] at hrun
    obtain ⟨_, hwrite, rfl, _, _⟩ := hrun
    exact h.handleWrite hsound.synced (fun hdown => Life.not_isWriting_of_none (hsound.closed hdown)) hwrite
  | close => exact h.handleClose hrun
  | error =>
    simp only [TcpConnection.runCallback, Option.some.injEq, Prod.mk.injEq] at hrun
    exact hrun.1 ▸ h.refl

-- a functor that does not send
theorem Settled.runTask {l l' : EventLoop Task} {message : List UInt8} {w : WriteResult} {task : Task}
    {notices : List Notice} (h : c.Settled) (hsound : Life.Sound c l) (hopen : task ≠ .connectEstablished)
    (hsends : ∀ message len, task ≠ .own (.sendInLoop message len))
    (hrun : c.runTask id l message w task = some (c', l', notices)) : Advanced c [] c' := by
  cases task with
  | connectEstablished => exact absurd rfl hopen
  | connectDestroyed => exact h.connectDestroyed hsound.synced (fun hup => (hsound.connected hup).1) hrun
  | forceCloseInLoop =>
    simp only [TcpConnection.runTask, forceCloseInLoop] at hrun
    split at hrun
    . exact h.handleClose hrun
    . simp only [Option.some.injEq, Prod.mk.injEq] at hrun
      exact hrun.1 ▸ h.refl
  | own f =>
    cases f with
    | sendInLoop message len => exact absurd rfl (hsends message len)
    | shutdownInLoop =>
      simp only [TcpConnection.runTask, Option.some.injEq, Prod.mk.injEq] at hrun
      exact hrun.1 ▸ h.shutdownInLoop
    | writeCompleteCallback | highWaterMarkCallback =>
      simp only [TcpConnection.runTask, Option.some.injEq, Prod.mk.injEq] at hrun
      exact hrun.1 ▸ h.refl

end TcpConnection

end MyMuduo
