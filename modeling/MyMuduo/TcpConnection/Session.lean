import MyMuduo.TcpConnection.Lifecycle

/-!
This module contains the runs of the loop thread on an open connection: messages, drains, and requests to
close it, and what they do to the socket and to the output buffer.
-/

namespace MyMuduo

universe u

namespace TcpConnection

variable {φ : Type u} {bind : Functor → φ} {c c' : TcpConnection} {l l' : EventLoop φ} {w : WriteResult}

/--
The cases of `handleWrite` in front of its test of `state_`.
-/
inductive Draining (bind : Functor → φ) (c : TcpConnection) (l : EventLoop φ) (w : WriteResult)
    : TcpConnection → EventLoop φ → Bool → Prop where
  | idle : c.channel.isWriting = false → Draining bind c l w c l false
  | refused : c.channel.isWriting = true → w.nwrote = 0 →
    Draining bind c l w (c.write c.outputBuffer.readable w) l false
  | partly : c.channel.isWriting = true → 0 < w.nwrote →
    (c.outputBuffer.retrieve w.nwrote).readable ≠ [] →
    Draining bind c l w
      { c.write c.outputBuffer.readable w with outputBuffer := c.outputBuffer.retrieve w.nwrote } l false
  | emptied {poller : EPollPoller} {channel : Channel} : c.channel.isWriting = true → 0 < w.nwrote →
    (c.outputBuffer.retrieve w.nwrote).readable = [] →
    c.channel.disableWriting l.poller = some (poller, channel) →
    Draining bind c l w
      { c.write c.outputBuffer.readable w with
        outputBuffer := c.outputBuffer.retrieve w.nwrote, channel := channel }
      (if c.writeCompleteCallback then
        { l with poller := poller }.queueInLoop true (bind .writeCompleteCallback)
      else
        { l with poller := poller })
      true

theorem drain_cases {drained : Bool} (h : c.drain bind l w = some (c', l', drained))
    : Draining bind c l w c' l' drained := by
  unfold drain at h
  dsimp only at h
  split at h
  . next hwriting =>
    split at h
    . next hsome =>
      split at h
      . next hempty =>
        rw [ByteBuffer.readableBytes_eq, List.length_eq_zero_iff] at hempty
        simp only [Option.map_eq_some_iff, Prod.mk.injEq] at h
        obtain ⟨⟨poller, channel⟩, hdisable, rfl, rfl, rfl⟩ := h
        exact .emptied hwriting hsome hempty hdisable
      . next hleft =>
        rw [ByteBuffer.readableBytes_eq, List.length_eq_zero_iff] at hleft
        simp only [Option.some.injEq, Prod.mk.injEq] at h
        obtain ⟨rfl, rfl, rfl⟩ := h
        exact .partly hwriting hsome hleft
    . next hnone =>
      simp only [Option.some.injEq, Prod.mk.injEq] at h
      obtain ⟨rfl, rfl, rfl⟩ := h
      exact .refused hwriting (Nat.eq_zero_of_not_pos hnone)
  . next hidle =>
    simp only [Option.some.injEq, Prod.mk.injEq] at h
    obtain ⟨rfl, rfl, rfl⟩ := h
    exact .idle (Bool.eq_false_iff.mpr hidle)

/--
The cases of `sendInLoop` on an open connection.
-/
inductive Sending (bind : Functor → φ) (c : TcpConnection) (l : EventLoop φ) (message : List UInt8)
    : WriteResult → TcpConnection → EventLoop φ → Prop where
  | complete {nwrote : Nat} : c.writesDirectly = true → message.drop nwrote = [] →
    Sending bind c l message (.accepted nwrote) (c.write message (.accepted nwrote))
      (if c.writeCompleteCallback then l.queueInLoop true (bind .writeCompleteCallback) else l)
  | remains {nwrote : Nat} {c' : TcpConnection} {l' : EventLoop φ} : c.writesDirectly = true →
    message.drop nwrote ≠ [] →
    keepRemaining bind (c.write message (.accepted nwrote)) l (message.drop nwrote) = some (c', l') →
    Sending bind c l message (.accepted nwrote) c' l'
  | givenUp {errno : Nat} : c.writesDirectly = true → (c.faultError (.failed errno) = true ∨ message = []) →
    Sending bind c l message (.failed errno) (c.write message (.failed errno)) l
  | refused {errno : Nat} {c' : TcpConnection} {l' : EventLoop φ} : c.writesDirectly = true → message ≠ [] →
    keepRemaining bind (c.write message (.failed errno)) l message = some (c', l') →
    Sending bind c l message (.failed errno) c' l'
  | behind {w : WriteResult} {c' : TcpConnection} {l' : EventLoop φ} : c.writesDirectly = false →
    message ≠ [] → c.keepRemaining bind l message = some (c', l') → Sending bind c l message w c' l'
  | nothing {w : WriteResult} : c.writesDirectly = false → message = [] → Sending bind c l message w c l

theorem sendInLoop_cases {message : List UInt8} (hopen : c.state_ ≠ .kDisconnected)
    (h : c.sendInLoop bind l message w = some (c', l')) : Sending bind c l message w c' l' := by
  unfold sendInLoop at h
  rw [if_neg hopen] at h
  dsimp only at h
  cases hdirect : c.writesDirectly with
  | true =>
    simp only [hdirect, if_true] at h
    cases w with
    | accepted nwrote =>
      have hfault : c.faultError (.accepted nwrote) = false := by simp [faultError]
      by_cases hdata : message.drop nwrote = []
      . have hcall : c.directWrite bind l message (.accepted nwrote)
            = (c.write message (.accepted nwrote),
              if c.writeCompleteCallback then l.queueInLoop true (bind .writeCompleteCallback) else l,
              message.drop nwrote) := by
          unfold directWrite
          dsimp only
          rw [hdata]
          cases hcallback : c.writeCompleteCallback with
          | true => simp [write, hcallback]
          | false => simp [write, hcallback]
        simp only [hcall, hdata, List.length_nil, Nat.lt_irrefl, decide_false, Bool.and_false, Bool.false_eq_true,
          if_false, Option.some.injEq, Prod.mk.injEq] at h
        obtain ⟨rfl, rfl⟩ := h
        exact .complete hdirect hdata
      . have hlen : 0 < (message.drop nwrote).length := List.length_pos_of_ne_nil hdata
        have hcall : c.directWrite bind l message (.accepted nwrote)
            = (c.write message (.accepted nwrote), l, message.drop nwrote) := by
          unfold directWrite
          dsimp only
          rw [if_neg]
          simp only [Nat.ne_of_gt hlen, decide_false, Bool.false_and, Bool.false_eq_true, not_false_eq_true]
        simp only [hcall, hfault, hlen, Bool.not_false, decide_true, Bool.and_self, if_true] at h
        exact .remains hdirect hdata h
    | failed errno =>
      have hcall : c.directWrite bind l message (.failed errno) = (c.write message (.failed errno), l, message) :=
        rfl
      rw [hcall] at h
      dsimp only at h
      split at h
      . next hkeep =>
        simp only [Bool.and_eq_true, decide_eq_true_eq] at hkeep
        exact .refused hdirect (List.ne_nil_of_length_pos hkeep.2) h
      . next hgiven =>
        simp only [Option.some.injEq, Prod.mk.injEq] at h
        obtain ⟨rfl, rfl⟩ := h
        refine .givenUp hdirect ?_
        cases hfault : c.faultError (.failed errno) with
        | true => exact .inl rfl
        | false =>
          simp only [hfault, Bool.not_false, Bool.true_and, decide_eq_true_eq, Nat.not_lt,
            Nat.le_zero] at hgiven
          exact .inr (List.length_eq_zero_iff.mp hgiven)
  | false =>
    have hfault : c.faultError w = false := by simp [faultError, hdirect]
    simp only [hdirect, Bool.false_eq_true, if_false, hfault, Bool.not_false, Bool.true_and,
      decide_eq_true_eq] at h
    split at h
    . next hlen => exact .behind hdirect (List.ne_nil_of_length_pos hlen) h
    . next hlen =>
      simp only [Option.some.injEq, Prod.mk.injEq] at h
      obtain ⟨rfl, rfl⟩ := h
      exact .nothing hdirect (List.length_eq_zero_iff.mp (Nat.le_zero.mp (Nat.not_lt.mp hlen)))

theorem readable_keepRemaining {data : List UInt8} (h : c.keepRemaining bind l data = some (c', l'))
    : c'.outputBuffer.readable = c.outputBuffer.readable ++ data := by
  unfold keepRemaining at h
  dsimp only at h
  split at h
  . simp only [Option.map_eq_some_iff, Prod.mk.injEq] at h
    obtain ⟨_, _, rfl, _⟩ := h
    simp
  . simp only [Option.some.injEq, Prod.mk.injEq] at h
    obtain ⟨rfl, _⟩ := h
    simp

theorem Output.writesDirectly_iff (h : c.Output l)
    : c.writesDirectly = true ↔ c.outputBuffer.readable = [] := by
  constructor
  . exact readable_of_writesDirectly
  . intro hempty
    have hwriting : c.channel.isWriting = false := by
      rw [Bool.eq_false_iff]
      intro hwriting
      exact h.writing.mp hwriting hempty
    simp [writesDirectly, hwriting, ByteBuffer.readableBytes_eq, hempty]

structure Session (φ : Type u) where
  conn : TcpConnection
  loop : EventLoop φ

namespace Session

inductive Label where
  | sendInLoop (message : List UInt8) (w : WriteResult)
  | handleWrite (w : WriteResult)
  | shutdown
  | forceClose
  -- another thread's call has stored `kDisconnecting`, and the functor that such a call queues
  | setDisconnecting
  | shutdownInLoop
  deriving DecidableEq, Repr

-- a connection as `connectEstablished` leaves it, with any callbacks and any mark
def Established (s : Session φ) : Prop :=
  ∃ channel sockfd writeComplete highWaterMark mark l, (l.poller.epoll sockfd).isSome = false
    ∧ connectEstablished
        { (new channel sockfd).setCallbacks writeComplete highWaterMark with highWaterMark := mark } l =
          some (s.conn, s.loop)

def enabled (s : Session φ) : Label → Bool
  | .sendInLoop message w => w.fits message.length
  | .handleWrite w => w.fits s.conn.outputBuffer.readableBytes
  | .shutdown | .forceClose | .setDisconnecting | .shutdownInLoop => true

def next (bind : Task → φ) (s : Session φ) : Label → Option (Session φ)
  | .sendInLoop message w =>
    (s.conn.sendInLoop (bind ∘ .own) s.loop message w).map fun (conn, loop) => ⟨conn, loop⟩
  | .handleWrite w =>
    (s.conn.handleWrite (bind ∘ .own) s.loop w).map fun (conn, loop) => ⟨conn, loop⟩
  | .shutdown =>
    let (conn, loop) := s.conn.shutdown (bind ∘ .own) true s.loop
    some ⟨conn, loop⟩
  | .forceClose =>
    let (conn, loop) := s.conn.forceClose bind true s.loop
    some ⟨conn, loop⟩
  | .setDisconnecting => some { s with conn := s.conn.setState .kDisconnecting }
  | .shutdownInLoop => some { s with conn := s.conn.shutdownInLoop }

def system (bind : Task → φ) : LTS (Session φ) Label :=
  .guarded Established enabled (next bind)

structure Inv (s : Session φ) : Prop extends s.conn.Output s.loop where
  open_ : s.conn.state_ = .kConnected ∨ s.conn.state_ = .kDisconnecting

variable {bind : Task → φ} {s s' : Session φ} {a : Label}

theorem Inv.not_disconnected (h : s.Inv) : s.conn.state_ ≠ .kDisconnected := by
  cases h.open_ with
  | inl hstate => simp [hstate]
  | inr hstate => simp [hstate]

theorem Inv.init (h : s.Established) : s.Inv := by
  obtain ⟨channel, sockfd, writeComplete, highWaterMark, mark, l, hfd, hnew⟩ := h
  simp only [connectEstablished, Option.map_eq_some_iff, Prod.mk.injEq] at hnew
  obtain ⟨⟨poller, channel'⟩, henable, hconn, hloop⟩ := hnew
  have hplain : ((new channel sockfd).setCallbacks writeComplete highWaterMark).connectEstablished l
      = some ({ ((new channel sockfd).setCallbacks writeComplete highWaterMark).setState .kConnected with
          channel := channel' }, { l with poller := poller }) := by
    simp only [connectEstablished]
    rw [Option.map_eq_some_iff]
    exact ⟨(poller, channel'), henable, rfl⟩
  obtain ⟨houtput, hstate, _⟩ := connectEstablished_new hfd hplain
  have hkept : s.conn.Output s.loop := by
    rw [← hconn, ← hloop]
    exact { houtput with }
  refine ⟨hkept, .inl ?_⟩
  rw [← hconn]
  rfl

theorem output_shutdownInLoop {c : TcpConnection} {l : EventLoop φ} (h : c.Output l)
    : c.shutdownInLoop.Output l := by
  unfold TcpConnection.shutdownInLoop
  split
  . exact { h with }
  . exact h

theorem state_shutdownInLoop (c : TcpConnection) : c.shutdownInLoop.state_ = c.state_ := by
  unfold TcpConnection.shutdownInLoop
  split
  . rfl
  . rfl

theorem output_shutdownIfDisconnecting {c : TcpConnection} {l : EventLoop φ} (h : c.Output l)
    : c.shutdownIfDisconnecting.Output l := by
  unfold TcpConnection.shutdownIfDisconnecting
  split
  . exact output_shutdownInLoop h
  . exact h

theorem state_shutdownIfDisconnecting (c : TcpConnection) : c.shutdownIfDisconnecting.state_ = c.state_ := by
  unfold TcpConnection.shutdownIfDisconnecting
  split
  . apply state_shutdownInLoop
  . rfl

theorem outputBuffer_shutdownIfDisconnecting (c : TcpConnection)
    : c.shutdownIfDisconnecting.outputBuffer = c.outputBuffer := by
  unfold TcpConnection.shutdownIfDisconnecting TcpConnection.shutdownInLoop
  split
  . split
    . rfl
    . rfl
  . rfl

theorem next_sendInLoop {message : List UInt8} {w : WriteResult} (h : s.Inv)
    (hnext : next bind s (.sendInLoop message w) = some s')
    : Sending (bind ∘ .own) s.conn s.loop message w s'.conn s'.loop := by
  simp only [next, Option.map_eq_some_iff] at hnext
  obtain ⟨⟨conn, loop⟩, hsend, rfl⟩ := hnext
  exact sendInLoop_cases h.not_disconnected hsend

theorem next_handleWrite {w : WriteResult} (hnext : next bind s (.handleWrite w) = some s')
    : ∃ conn drained, Draining (bind ∘ .own) s.conn s.loop w conn s'.loop drained
        ∧ s'.conn = if drained then conn.shutdownIfDisconnecting else conn := by
  simp only [next, TcpConnection.handleWrite, Option.map_eq_some_iff] at hnext
  obtain ⟨_, ⟨⟨conn, loop, drained⟩, hdrain, rfl⟩, rfl⟩ := hnext
  exact ⟨conn, drained, drain_cases hdrain, rfl⟩

theorem Inv.sendInLoop (bind : Task → φ) (h : s.Inv) (message : List UInt8) (w : WriteResult)
    : ∃ s', next bind s (.sendInLoop message w) = some s' ∧ s'.Inv := by
  obtain ⟨conn, loop, heq, hsent⟩ := sendInLoop_spec (bind ∘ .own) h.toOutput message w h.not_disconnected
  have hframe := sendInLoop_frame heq
  refine ⟨⟨conn, loop⟩, by simp only [next, heq, Option.map_some], hsent.toOutput, ?_⟩
  rw [hframe.state_]
  exact h.open_

theorem Inv.handleWrite (bind : Task → φ) (h : s.Inv) (w : WriteResult)
    : ∃ s', next bind s (.handleWrite w) = some s' ∧ s'.Inv := by
  obtain ⟨conn, loop, drained, heq, hsent, _⟩ := drain_spec (bind ∘ .own) h.toOutput w
  have hframe := drain_frame heq
  refine ⟨_, by simp only [next, TcpConnection.handleWrite, heq, Option.map_some]; rfl, ?_⟩
  cases drained with
  | false => exact ⟨hsent.toOutput, hframe.state_ ▸ h.open_⟩
  | true =>
    refine ⟨output_shutdownIfDisconnecting hsent.toOutput, ?_⟩
    dsimp only
    rw [if_pos rfl, state_shutdownIfDisconnecting, hframe.state_]
    exact h.open_

/--
A request to close leaves the buffer alone, and what it does to the socket comes from `shutdownInLoop`.
-/
structure Requested (s s' : Session φ) : Prop where
  outputBuffer : s'.conn.outputBuffer = s.conn.outputBuffer
  channel : s'.conn.channel = s.conn.channel
  poller : s'.loop.poller = s.loop.poller
  socket : s'.conn.socket = s.conn.socket
    ∨ s.conn.channel.isWriting = false ∧ s'.conn.socket = s.conn.socket ++ [.shutdownWrite]
  state_ : s'.conn.state_ = s.conn.state_ ∨ s'.conn.state_ = .kDisconnecting

theorem requested_shutdownInLoop (c : TcpConnection) (l : EventLoop φ)
    : Requested ⟨c, l⟩ ⟨c.shutdownInLoop, l⟩ := by
  unfold TcpConnection.shutdownInLoop
  split
  . next hidle =>
    rw [Bool.not_eq_true'] at hidle
    exact ⟨rfl, rfl, rfl, .inr ⟨hidle, rfl⟩, .inl rfl⟩
  . exact ⟨rfl, rfl, rfl, .inl rfl, .inl rfl⟩

theorem requested_shutdown (bind : Functor → φ) (c : TcpConnection) (l : EventLoop φ)
    : Requested ⟨c, l⟩ ⟨(c.shutdown bind true l).1, (c.shutdown bind true l).2⟩ := by
  unfold shutdown
  split
  . have hrequested := requested_shutdownInLoop (c.setState .kDisconnecting) l
    refine ⟨hrequested.outputBuffer, hrequested.channel, rfl, hrequested.socket, .inr ?_⟩
    exact state_shutdownInLoop _
  . exact ⟨rfl, rfl, rfl, .inl rfl, .inl rfl⟩

theorem requested_forceClose (bind : Task → φ) (c : TcpConnection) (l : EventLoop φ)
    : Requested ⟨c, l⟩ ⟨(c.forceClose bind true l).1, (c.forceClose bind true l).2⟩ := by
  unfold forceClose
  split
  . exact ⟨rfl, rfl, by simp, .inl rfl, .inr rfl⟩
  . exact ⟨rfl, rfl, rfl, .inl rfl, .inl rfl⟩

/--
A step takes a message, drains the buffer or requests to close.
-/
inductive Step (bind : Task → φ) (s s' : Session φ) : Label → Prop where
  | sendInLoop {message : List UInt8} {w : WriteResult} : w.fits message.length = true →
    Sending (bind ∘ .own) s.conn s.loop message w s'.conn s'.loop → Step bind s s' (.sendInLoop message w)
  | handleWrite {w : WriteResult} {conn : TcpConnection} {drained : Bool} :
    w.fits s.conn.outputBuffer.readableBytes = true →
    Draining (bind ∘ .own) s.conn s.loop w conn s'.loop drained →
    s'.conn = (if drained then conn.shutdownIfDisconnecting else conn) → Step bind s s' (.handleWrite w)
  | request {a : Label} : (∀ message w, a ≠ .sendInLoop message w) → (∀ w, a ≠ .handleWrite w) →
    Requested s s' → Step bind s s' a

theorem step_cases (h : s.Inv) (hstep : (system bind).step s a = some s') : Step bind s s' a := by
  obtain ⟨henabled, hnext⟩ := LTS.guarded_step.mp hstep
  cases a with
  | sendInLoop message w => exact .sendInLoop henabled (next_sendInLoop h hnext)
  | handleWrite w =>
    obtain ⟨conn, drained, hdraining, hconn⟩ := next_handleWrite hnext
    exact .handleWrite henabled hdraining hconn
  | shutdown =>
    simp only [next, Option.some.injEq] at hnext
    exact .request (by simp) (by simp) (hnext ▸ requested_shutdown _ _ _)
  | forceClose =>
    simp only [next, Option.some.injEq] at hnext
    exact .request (by simp) (by simp) (hnext ▸ requested_forceClose _ _ _)
  | setDisconnecting =>
    simp only [next, Option.some.injEq] at hnext
    exact .request (by simp) (by simp) (hnext ▸ ⟨rfl, rfl, rfl, .inl rfl, .inr rfl⟩)
  | shutdownInLoop =>
    simp only [next, Option.some.injEq] at hnext
    exact .request (by simp) (by simp) (hnext ▸ requested_shutdownInLoop _ _)

theorem Requested.inv (h : s.Inv) (hrequested : Requested s s') : s'.Inv := by
  obtain ⟨hbuffer, hchannel, hpoller, _, hstate⟩ := hrequested
  refine ⟨⟨?_, ?_⟩, ?_⟩
  . rw [hchannel, hpoller]
    exact h.synced
  . rw [hchannel, hbuffer]
    exact h.writing
  . cases hstate with
    | inl hkept => exact hkept ▸ h.open_
    | inr hdisconnecting => exact .inr hdisconnecting

theorem Inv.step (h : s.Inv) (hstep : (system bind).step s a = some s') : s'.Inv := by
  obtain ⟨_, hnext⟩ := LTS.guarded_step.mp hstep
  cases step_cases h hstep with
  | @sendInLoop message w _ _ =>
    obtain ⟨s₁, heq, hinv⟩ := h.sendInLoop bind message w
    rw [heq, Option.some.injEq] at hnext
    exact hnext ▸ hinv
  | @handleWrite w _ _ _ _ _ =>
    obtain ⟨s₁, heq, hinv⟩ := h.handleWrite bind w
    rw [heq, Option.some.injEq] at hnext
    exact hnext ▸ hinv
  | request _ _ hrequested => exact hrequested.inv h

theorem inv_reachable (h : (system bind).Reachable s) : s.Inv :=
  LTS.Reachable.invariant Inv (fun _ => Inv.init) (fun _ _ _ => Inv.step) h

-- no step of such a run ends the process
theorem step_total (h : (system bind).Reachable s) (ha : s.enabled a = true)
    : ∃ s', (system bind).step s a = some s' := by
  simp only [LTS.guarded_step, system, ha, true_and]
  cases a with
  | sendInLoop message w =>
    obtain ⟨s', heq, _⟩ := (inv_reachable h).sendInLoop bind message w
    exact ⟨s', heq⟩
  | handleWrite w =>
    obtain ⟨s', heq, _⟩ := (inv_reachable h).handleWrite bind w
    exact ⟨s', heq⟩
  | shutdown | forceClose | setDisconnecting | shutdownInLoop => exact ⟨_, rfl⟩

end Session

end TcpConnection

end MyMuduo
