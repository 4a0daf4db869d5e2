import MyMuduo.TcpConnection.Basic
import MyMuduo.Transition.Fifo

/-!
This module contains what `sendInLoop` and `handleWrite` leave alone, and the invariant of the output
side: the bytes that the kernel has accepted and the bytes that wait in the buffer are the messages,
and `EPOLLOUT` is watched for exactly while bytes wait.
-/

namespace MyMuduo

universe u

namespace TcpConnection

variable {φ : Type u} {bind : Functor → φ}

-- the functors that only tell the user something
def Functor.isNotice : Functor → Bool
  | .writeCompleteCallback | .highWaterMarkCallback _ => true
  | _ => false

/--
The connection has done nothing else than to write to its socket and to queue notices.
-/
structure Frame (bind : Functor → φ) (c : TcpConnection) (l : EventLoop φ) (c' : TcpConnection)
    (l' : EventLoop φ) : Prop where
  state_ : c'.state_ = c.state_
  writes : ∃ calls, c'.socket = c.socket ++ calls ∧ .shutdownWrite ∉ calls
  functors : l'.functors = l.functors
  notices : ∃ notices : List Functor, l'.pendingFunctors = l.pendingFunctors ++ notices.map bind
    ∧ ∀ f ∈ notices, f.isNotice = true

theorem Frame.refl (c : TcpConnection) (l : EventLoop φ) : Frame bind c l c l where
  state_ := rfl
  writes := ⟨[], by simp⟩
  functors := rfl
  notices := ⟨[], by simp⟩

theorem Frame.trans {c c₁ c₂ : TcpConnection} {l l₁ l₂ : EventLoop φ} (h₁ : Frame bind c l c₁ l₁)
    (h₂ : Frame bind c₁ l₁ c₂ l₂) : Frame bind c l c₂ l₂ := by
  obtain ⟨calls₁, hcalls₁, hwrites₁⟩ := h₁.writes
  obtain ⟨calls₂, hcalls₂, hwrites₂⟩ := h₂.writes
  obtain ⟨notices₁, hnotices₁, hall₁⟩ := h₁.notices
  obtain ⟨notices₂, hnotices₂, hall₂⟩ := h₂.notices
  constructor
  . rw [h₂.state_, h₁.state_]
  . refine ⟨calls₁ ++ calls₂, ?_, ?_⟩
    . rw [hcalls₂, hcalls₁, List.append_assoc]
    . simp [hwrites₁, hwrites₂]
  . rw [h₂.functors, h₁.functors]
  . refine ⟨notices₁ ++ notices₂, ?_, ?_⟩
    . rw [hnotices₂, hnotices₁, List.map_append, List.append_assoc]
    . rw [List.forall_mem_append]
      exact ⟨hall₁, hall₂⟩

theorem Frame.notice_if {f : Functor} (hf : f.isNotice = true) (c : TcpConnection) (l : EventLoop φ)
    (test : Bool) : Frame bind c l c (if test then l.queueInLoop true (bind f) else l) := by
  have hrefl : Frame bind c l c l := Frame.refl c l
  split
  . exact
      { hrefl with
        functors := by simp
        notices := ⟨[f], by simp [hf]⟩ }
  . exact hrefl

theorem Frame.write (c : TcpConnection) (l : EventLoop φ) (message : List UInt8) (w : WriteResult)
    : Frame bind c l (c.write message w) l :=
  have hrefl : Frame bind c l c l := Frame.refl c l
  { hrefl with
    writes := ⟨[.write message w.nwrote], by simp [TcpConnection.write]⟩ }

theorem keepRemaining_frame {c c' : TcpConnection} {l l' : EventLoop φ} {data : List UInt8}
    (h : c.keepRemaining bind l data = some (c', l')) : Frame bind c l c' l' := by
  unfold keepRemaining at h
  dsimp only at h
  generalize hnotify : (decide (c.highWaterMark ≤ _) && _ && _) = notify at h
  have hnotice : Frame bind c l c _ := Frame.notice_if
    (f := .highWaterMarkCallback (c.outputBuffer.readableBytes + data.length)) rfl c l notify
  split at h
  . simp only [Option.map_eq_some_iff, Prod.mk.injEq] at h
    obtain ⟨_, _, rfl, rfl⟩ := h
    exact { hnotice with }
  . simp only [Option.some.injEq, Prod.mk.injEq] at h
    obtain ⟨rfl, rfl⟩ := h
    exact { hnotice with }

theorem directWrite_frame (bind : Functor → φ) (c : TcpConnection) (l : EventLoop φ)
    (message : List UInt8) (w : WriteResult)
    : Frame bind c l (c.directWrite bind l message w).1 (c.directWrite bind l message w).2.1 := by
  have hwrite : Frame bind c l (c.write message w) l := Frame.write c l message w
  unfold directWrite
  cases w with
  | accepted nwrote =>
    dsimp only
    split
    . exact hwrite.trans (Frame.notice_if rfl _ l true)
    . exact hwrite
  | failed errno => exact hwrite

theorem sendInLoop_frame {c c' : TcpConnection} {l l' : EventLoop φ} {message : List UInt8}
    {w : WriteResult} (h : c.sendInLoop bind l message w = some (c', l')) : Frame bind c l c' l' := by
  unfold sendInLoop at h
  split at h
  . simp only [Option.some.injEq, Prod.mk.injEq] at h
    obtain ⟨rfl, rfl⟩ := h
    exact Frame.refl c l
  . dsimp only at h
    generalize hdirect : (if c.writesDirectly then _ else _) = direct at h
    have hframe : Frame bind c l direct.1 direct.2.1 := by
      rw [← hdirect]
      split
      . apply directWrite_frame
      . exact Frame.refl c l
    split at h
    . exact hframe.trans (keepRemaining_frame h)
    . simp only [Option.some.injEq, Prod.mk.injEq] at h
      rw [← h.1, ← h.2]
      exact hframe

theorem drain_frame {c c' : TcpConnection} {l l' : EventLoop φ} {w : WriteResult} {drained : Bool}
    (h : c.drain bind l w = some (c', l', drained)) : Frame bind c l c' l' := by
  have hwrite : Frame bind c l (c.write c.outputBuffer.readable w) l := Frame.write ..
  unfold drain at h
  dsimp only at h
  split at h
  . split at h
    . split at h
      . simp only [Option.map_eq_some_iff, Prod.mk.injEq] at h
        obtain ⟨⟨poller, channel⟩, _, rfl, rfl, _⟩ := h
        have hoff : Frame bind c l
            { c.write c.outputBuffer.readable w with
              outputBuffer := c.outputBuffer.retrieve w.nwrote, channel := channel }
            { l with poller := poller } :=
          { hwrite with }
        exact hoff.trans (Frame.notice_if rfl _ _ _)
      . simp only [Option.some.injEq, Prod.mk.injEq] at h
        obtain ⟨rfl, rfl, _⟩ := h
        exact { hwrite with }
    . simp only [Option.some.injEq, Prod.mk.injEq] at h
      obtain ⟨rfl, rfl, _⟩ := h
      exact hwrite
  . simp only [Option.some.injEq, Prod.mk.injEq] at h
    obtain ⟨rfl, rfl, _⟩ := h
    exact Frame.refl c l

theorem Frame.accepted {c c' : TcpConnection} {l l' : EventLoop φ} (h : Frame bind c l c' l')
    : c.accepted <+: c'.accepted := by
  obtain ⟨calls, hcalls, _⟩ := h.writes
  simp only [TcpConnection.accepted, hcalls, List.flatMap_append]
  apply List.prefix_append

structure Output (c : TcpConnection) (l : EventLoop φ) : Prop where
  synced : c.channel.Synced l.poller
  writing : c.channel.isWriting = true ↔ c.outputBuffer.readable ≠ []

/--
The connection has taken on `message`, behind what it had before.
-/
structure Sent (c : TcpConnection) (message : List UInt8) (c' : TcpConnection) (l' : EventLoop φ)
    : Prop extends Output c' l' where
  stream : c'.accepted ++ c'.outputBuffer.readable =
    c.accepted ++ c.outputBuffer.readable ++ message

theorem Sent.refl {c : TcpConnection} {l : EventLoop φ} (h : c.Output l) : Sent c [] c l :=
  { h with stream := by simp }

theorem Sent.trans {c c₁ c₂ : TcpConnection} {l₁ l₂ : EventLoop φ} {m₁ m₂ : List UInt8}
    (h₁ : Sent c m₁ c₁ l₁) (h₂ : Sent c₁ m₂ c₂ l₂) : Sent c (m₁ ++ m₂) c₂ l₂ :=
  { h₂ with stream := by rw [h₂.stream, h₁.stream, List.append_assoc _ m₁ m₂] }

theorem Output.notice_if {c : TcpConnection} {l : EventLoop φ} (h : c.Output l)
    (bind : Functor → φ) (f : Functor) (test : Bool) : c.Output (if test then l.queueInLoop true (bind f) else l) := by
  split
  . exact { h with synced := by simpa using h.synced }
  . exact h

@[simp]
theorem accepted_write (c : TcpConnection) (message : List UInt8) (w : WriteResult)
    : (c.write message w).accepted = c.accepted ++ message.take w.nwrote := by
  simp [accepted, write, SocketCall.accepted]

-- a direct write: nothing waits in front of the message
theorem Sent.write {c : TcpConnection} {l : EventLoop φ} (h : c.Output l)
    (hempty : c.outputBuffer.readable = []) (message : List UInt8) (w : WriteResult)
    : Sent c (message.take w.nwrote) (c.write message w) l :=
  { h with
    stream := by
      rw [accepted_write]
      simp [TcpConnection.write, hempty] }

theorem keepRemaining_spec (bind : Functor → φ) {c : TcpConnection} {l : EventLoop φ}
    (h : c.Output l) {data : List UInt8} (hdata : data ≠ [])
    : ∃ c' l', c.keepRemaining bind l data = some (c', l') ∧ Sent c data c' l' := by
  unfold keepRemaining
  dsimp only
  generalize hnotify : (decide (c.highWaterMark ≤ _) && _ && _) = notify
  have hnotice : c.Output _ := h.notice_if bind
    (.highWaterMarkCallback (c.outputBuffer.readableBytes + data.length)) notify
  split
  . obtain ⟨poller, channel, heq, hsynced, hwriting⟩ := Channel.enableWriting_of_synced hnotice.synced
    refine ⟨_, _, by rw [heq]; rfl, ?_⟩
    exact
      { synced := hsynced
        writing := by simp [hwriting, hdata]
        stream := by simp [accepted] }
  . next hwriting =>
    refine ⟨_, _, rfl, ?_⟩
    exact
      { hnotice with
        writing := by
          simp only [Bool.not_eq_true', Bool.not_eq_false] at hwriting
          simp [hwriting, hdata]
        stream := by simp [accepted] }

theorem readable_of_writesDirectly {c : TcpConnection} (h : c.writesDirectly = true)
    : c.outputBuffer.readable = [] := by
  simp only [writesDirectly, Bool.and_eq_true, decide_eq_true_eq] at h
  rw [ByteBuffer.readableBytes_eq] at h
  exact List.length_eq_zero_iff.mp h.2

theorem directWrite_spec (bind : Functor → φ) {c : TcpConnection} {l : EventLoop φ}
    (h : c.Output l) (hdirect : c.writesDirectly = true) (message : List UInt8) (w : WriteResult)
    : ∃ c' l', c.directWrite bind l message w = (c', l', message.drop w.nwrote)
        ∧ Sent c (message.take w.nwrote) c' l' := by
  have hwrite := Sent.write h (readable_of_writesDirectly hdirect) message w
  unfold directWrite
  cases w with
  | accepted nwrote =>
    dsimp only
    split
    . refine ⟨_, _, rfl, ?_⟩
      exact { hwrite with synced := by simpa using hwrite.synced }
    . exact ⟨_, _, rfl, hwrite⟩
  | failed errno => exact ⟨_, _, rfl, hwrite⟩

/--
The message may be missing in the stream: its direct write reports that the peer is gone.
-/
def mayMiss (c : TcpConnection) : WriteResult → Bool
  | .accepted _ => false
  | .failed errno => c.writesDirectly && (errno = EPIPE || errno = ECONNRESET)

theorem faultError_eq (c : TcpConnection) (w : WriteResult) : c.faultError w = c.mayMiss w := by
  cases w with
  | accepted nwrote => simp [faultError, mayMiss]
  | failed errno =>
    rw [Bool.eq_iff_iff]
    simp only [faultError, mayMiss, Bool.and_eq_true, Bool.or_eq_true, decide_eq_true_eq]
    constructor
    . rintro ⟨hdirect, _, herrno⟩
      exact ⟨hdirect, herrno⟩
    . rintro ⟨hdirect, rfl | rfl⟩
      . exact ⟨hdirect, by decide, .inl rfl⟩
      . exact ⟨hdirect, by decide, .inr rfl⟩

theorem writesDirectly_of_faultError {c : TcpConnection} {w : WriteResult}
    (h : c.faultError w = true) : c.writesDirectly = true ∧ w.nwrote = 0 := by
  cases w with
  | accepted nwrote => simp [faultError] at h
  | failed errno =>
    simp only [faultError, Bool.and_eq_true] at h
    exact ⟨h.1, rfl⟩

-- the test in front of the part of `sendInLoop` that keeps the rest of the message
theorem keepRemaining_if (bind : Functor → φ) {c : TcpConnection} {l : EventLoop φ}
    (h : c.Output l) (faultError : Bool) (data : List UInt8)
    : ∃ c' l',
        (if !faultError && 0 < data.length then c.keepRemaining bind l data else some (c, l)) =
            some (c', l')
          ∧ Sent c (if faultError then [] else data) c' l' := by
  cases faultError with
  | true => exact ⟨c, l, rfl, Sent.refl h⟩
  | false =>
    by_cases hdata : data = []
    . refine ⟨c, l, by simp [hdata], ?_⟩
      simp only [hdata]
      exact Sent.refl h
    . have hlen : 0 < data.length := List.length_pos_of_ne_nil hdata
      simp only [hlen, Bool.not_false, decide_true, Bool.and_self, if_true]
      exact keepRemaining_spec bind h hdata

theorem sendInLoop_spec (bind : Functor → φ) {c : TcpConnection} {l : EventLoop φ}
    (h : c.Output l) (message : List UInt8) (w : WriteResult) (hstate : c.state_ ≠ .kDisconnected)
    : ∃ c' l', c.sendInLoop bind l message w = some (c', l')
        ∧ Sent c (if c.faultError w then [] else message) c' l' := by
  unfold sendInLoop
  simp only [hstate, if_false]
  cases hdirect : c.writesDirectly with
  | true =>
    obtain ⟨c₁, l₁, heq, hsent⟩ := directWrite_spec bind h hdirect message w
    obtain ⟨c₂, l₂, hkeep, hkept⟩ :=
      keepRemaining_if bind hsent.toOutput (c.faultError w) (message.drop w.nwrote)
    refine ⟨c₂, l₂, ?_, ?_⟩
    . simp only [if_true, heq]
      exact hkeep
    . have hall := hsent.trans hkept
      cases hfault : c.faultError w with
      | true =>
        rw [hfault, (writesDirectly_of_faultError hfault).2] at hall
        exact hall
      | false =>
        simp only [hfault, Bool.false_eq_true, if_false, List.take_append_drop] at hall
        exact hall
  | false => exact keepRemaining_if bind h (c.faultError w) message

theorem drain_spec (bind : Functor → φ) {c : TcpConnection} {l : EventLoop φ} (h : c.Output l)
    (w : WriteResult)
    : ∃ c' l' drained, c.drain bind l w = some (c', l', drained) ∧ Sent c [] c' l'
        ∧ (drained = true → c'.channel.isWriting = false) := by
  unfold drain
  split
  . next hwriting =>
    have hstream : (c.write c.outputBuffer.readable w).accepted
        ++ (c.outputBuffer.retrieve w.nwrote).readable =
          c.accepted ++ c.outputBuffer.readable ++ [] := by
      rw [accepted_write, ByteBuffer.readable_retrieve, List.append_assoc, List.take_append_drop,
        List.append_nil]
    dsimp only
    split
    . split
      . next hempty =>
        rw [ByteBuffer.readableBytes_eq, List.length_eq_zero_iff] at hempty
        obtain ⟨poller, channel, heq, hsynced, hoff⟩ := Channel.disableWriting_of_synced h.synced
        refine ⟨_, _, _, by rw [show (c.write _ w).channel = c.channel from rfl, heq]; rfl, ?_, ?_⟩
        . have hdrained : Output
              { c.write c.outputBuffer.readable w with
                outputBuffer := c.outputBuffer.retrieve w.nwrote, channel := channel }
              { l with poller := poller } :=
            { synced := hsynced
              writing := iff_of_false (by simp [hoff]) (fun hne => hne hempty) }
          exact { hdrained.notice_if bind .writeCompleteCallback _ with stream := hstream }
        . intro _
          exact hoff
      . next hleft =>
        rw [ByteBuffer.readableBytes_eq, List.length_eq_zero_iff] at hleft
        refine ⟨_, _, false, rfl, ?_, by simp⟩
        exact
          { synced := h.synced
            writing := iff_of_true hwriting hleft
            stream := hstream }
    . next hnone =>
      refine ⟨_, _, false, rfl, ?_, by simp⟩
      exact
        { h with
          stream := by
            have : w.nwrote = 0 := Nat.eq_zero_of_not_pos hnone
            rw [accepted_write, this]
            simp [write] }
  . exact ⟨c, l, false, rfl, Sent.refl h, by simp⟩

theorem connectEstablished_new {channel : Addr} {sockfd : Fd} {writeComplete highWaterMark : Bool}
    {c : TcpConnection} {l l' : EventLoop φ} (hfd : (l.poller.epoll sockfd).isSome = false)
    (h : ((new channel sockfd).setCallbacks writeComplete highWaterMark).connectEstablished l =
      some (c, l'))
    : c.Output l' ∧ c.state_ = .kConnected ∧ c.socket = [] ∧ c.outputBuffer.readable = []
        ∧ c.accepted = [] := by
  have hsynced : { (new channel sockfd).channel with events := 0 ||| Channel.kReadEvent }.Synced
      l.poller := by
    simp [Channel.Synced, new, Channel.new, hfd]
  obtain ⟨poller, channel', heq, hsynced', hframe⟩ := EPollPoller.updateChannel_of_synced hsynced
  have hnew : ((new channel sockfd).channel.enableReading l.poller) = some (poller, channel') := heq
  simp only [connectEstablished, setCallbacks, setState, hnew, Option.map_some, Option.some.injEq,
    Prod.mk.injEq] at h
  obtain ⟨rfl, rfl⟩ := h
  have hwriting : channel'.isWriting = false := by
    have hmask : (0 ||| Channel.kReadEvent) &&& Channel.kWriteEvent = 0 := by decide
    rw [Channel.isWriting_congr hframe.events]
    simp only [Channel.isWriting, hmask]
    decide
  refine ⟨⟨hsynced', ?_⟩, rfl, rfl, ?_, rfl⟩
  . simp [hwriting, new]
  . simp [new]

end TcpConnection

end MyMuduo
