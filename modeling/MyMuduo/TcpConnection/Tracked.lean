import MyMuduo.Poller.Channels
import MyMuduo.TcpConnection.Lifecycle

/-!
This module contains that the functions of a connection go through as long as the records of its channel agree, and
that these agree afterwards: no call of `epoll_ctl` is refused.
-/

namespace MyMuduo

universe u

namespace EPollPoller

variable {p p₁ p' : EPollPoller} {c c₁ c' : Channel}

theorem Frame.refl (p : EPollPoller) (c : Channel) : Frame p p c c :=
  ⟨rfl, rfl, rfl, rfl, fun _ _ => rfl, fun _ _ => rfl⟩

-- two calls, with the events of the second one
theorem Frame.trans (h₁ : Frame p p₁ { c with events := c₁.events } c₁)
    (h₂ : Frame p₁ p' { c₁ with events := c'.events } c') : Frame p p' { c with events := c'.events } c' := by
  have hfd : c₁.fd = c.fd := h₁.fd
  refine ⟨h₂.addr.trans h₁.addr, h₂.fd.trans h₁.fd, rfl, h₂.callbacks.trans h₁.callbacks, ?_, ?_⟩
  . intro fd hne
    have hne₁ : fd ≠ c₁.fd := hfd ▸ hne
    exact (h₂.epoll fd hne₁).trans (h₁.epoll fd hne)
  . intro fd hne
    have hne₁ : fd ≠ c₁.fd := hfd ▸ hne
    exact (h₂.channels fd hne₁).trans (h₁.channels fd hne)

end EPollPoller

namespace TcpConnection

variable {φ : Type u}

/--
The records of the channel agree, and those of other descriptors are as they were.
-/
structure Tracked (c : TcpConnection) (l : EventLoop φ) (c' : TcpConnection) (l' : EventLoop φ) : Prop where
  reflects : l'.poller.Reflects c'.channel
  frame : EPollPoller.Frame l.poller l'.poller { c.channel with events := c'.channel.events } c'.channel

variable {bind : Functor → φ} {c c' c₁ : TcpConnection} {l l' l₁ : EventLoop φ}

theorem Tracked.of_eq (h : l.poller.Reflects c.channel) (hchannel : c'.channel = c.channel)
    (hpoller : l'.poller = l.poller) : Tracked c l c' l' := by
  refine ⟨?_, ?_⟩
  . rw [hchannel, hpoller]
    exact h
  . rw [hchannel, hpoller]
    exact .refl _ _

theorem Tracked.trans (h₁ : Tracked c l c₁ l₁) (h₂ : Tracked c₁ l₁ c' l') : Tracked c l c' l' :=
  ⟨h₂.reflects, h₁.frame.trans h₂.frame⟩

-- only the channel and the poller matter
theorem Tracked.congr (h : Tracked c l c₁ l₁) (hchannel : c'.channel = c₁.channel)
    (hpoller : l'.poller = l₁.poller) : Tracked c l c' l' := by
  refine ⟨?_, ?_⟩
  . rw [hchannel, hpoller]
    exact h.reflects
  . rw [hchannel, hpoller]
    exact h.frame

-- the call of `updateChannel` behind a change of the mask
theorem Tracked.of_update (h : l.poller.Reflects c.channel) (events : Events)
    : ∃ poller channel, l.poller.updateChannel { c.channel with events := events } = some (poller, channel)
        ∧ Tracked c l { c with channel := channel } { l with poller := poller } := by
  have hreflects : l.poller.Reflects { { c.channel with events := events } with events := c.channel.events } := h
  obtain ⟨poller, channel, heq, hreflects', hframe, _⟩ := EPollPoller.updateChannel_of_reflects hreflects
  have hevents : channel.events = events := hframe.events
  subst hevents
  exact ⟨poller, channel, heq, hreflects', hframe⟩

theorem tracked_keepRemaining (bind : Functor → φ) (data : List UInt8) (h : l.poller.Reflects c.channel)
    : ∃ c' l', c.keepRemaining bind l data = some (c', l') ∧ Tracked c l c' l' := by
  unfold keepRemaining
  dsimp only
  generalize hnotify : (decide (c.highWaterMark ≤ _) && _ && _) = notify
  have hpoller := poller_queueInLoop_if l notify true
    (bind (.highWaterMarkCallback (c.outputBuffer.readableBytes + data.length)))
  split
  . obtain ⟨poller, channel, heq, htracked⟩ :=
      Tracked.of_update h (c.channel.events ||| Channel.kWriteEvent)
    have henable : c.channel.enableWriting l.poller = some (poller, channel) := heq
    simp only [hpoller, henable, Option.map_some]
    exact ⟨_, _, rfl, htracked.congr rfl rfl⟩
  . exact ⟨_, _, rfl, .of_eq h rfl hpoller⟩

theorem tracked_directWrite (bind : Functor → φ) (message : List UInt8) (w : WriteResult)
    (h : l.poller.Reflects c.channel)
    : Tracked c l (c.directWrite bind l message w).1 (c.directWrite bind l message w).2.1 := by
  unfold directWrite
  cases w with
  | accepted nwrote =>
    dsimp only
    split
    . exact .of_eq h rfl (EventLoop.poller_queueInLoop ..)
    . exact .of_eq h rfl rfl
  | failed errno => exact .of_eq h rfl rfl

theorem tracked_sendInLoop (bind : Functor → φ) (message : List UInt8) (w : WriteResult)
    (h : l.poller.Reflects c.channel)
    : ∃ c' l', c.sendInLoop bind l message w = some (c', l') ∧ Tracked c l c' l' := by
  unfold sendInLoop
  split
  . exact ⟨_, _, rfl, .of_eq h rfl rfl⟩
  . dsimp only
    generalize hdirect : (if c.writesDirectly then _ else _) = direct
    have htracked : Tracked c l direct.1 direct.2.1 := by
      rw [← hdirect]
      split
      . exact tracked_directWrite bind message w h
      . exact .of_eq h rfl rfl
    split
    . obtain ⟨c', l', heq, hkept⟩ := tracked_keepRemaining bind direct.2.2 htracked.reflects
      exact ⟨c', l', heq, htracked.trans hkept⟩
    . exact ⟨_, _, rfl, htracked⟩

theorem tracked_shutdownInLoop (h : l.poller.Reflects c.channel) : Tracked c l c.shutdownInLoop l := by
  unfold shutdownInLoop
  split <;> exact .of_eq h rfl rfl

theorem tracked_drain (bind : Functor → φ) (w : WriteResult) (h : l.poller.Reflects c.channel)
    : ∃ c' l' drained, c.drain bind l w = some (c', l', drained) ∧ Tracked c l c' l' := by
  unfold drain
  dsimp only
  split
  . split
    . split
      . obtain ⟨poller, channel, heq, htracked⟩ :=
          Tracked.of_update h (c.channel.events &&& ~~~Channel.kWriteEvent)
        have hdisable : c.channel.disableWriting l.poller = some (poller, channel) := heq
        simp only [write, hdisable, Option.map_some]
        exact ⟨_, _, _, rfl, htracked.congr rfl (poller_queueInLoop_if ..)⟩
      . exact ⟨_, _, _, rfl, .of_eq h rfl rfl⟩
    . exact ⟨_, _, _, rfl, .of_eq h rfl rfl⟩
  . exact ⟨_, _, _, rfl, .of_eq h rfl rfl⟩

theorem tracked_handleWrite (bind : Functor → φ) (w : WriteResult) (h : l.poller.Reflects c.channel)
    : ∃ c' l', c.handleWrite bind l w = some (c', l') ∧ Tracked c l c' l' := by
  obtain ⟨c₁, l₁, drained, hdrain, htracked⟩ := tracked_drain bind w h
  simp only [handleWrite, hdrain, Option.map_some]
  refine ⟨_, _, rfl, ?_⟩
  split
  . unfold shutdownIfDisconnecting
    split
    . exact htracked.trans (tracked_shutdownInLoop htracked.reflects)
    . exact htracked
  . exact htracked

theorem tracked_disableAll (h : l.poller.Reflects c.channel)
    : ∃ poller channel, c.channel.disableAll l.poller = some (poller, channel)
        ∧ Tracked c l { c with channel := channel } { l with poller := poller } :=
  Tracked.of_update h Channel.kNoneEvent

theorem tracked_handleClose (h : l.poller.Reflects c.channel)
    : ∃ c' l' notices, c.handleClose l = some (c', l', notices) ∧ Tracked c l c' l' := by
  obtain ⟨poller, channel, hdisable, htracked⟩ := tracked_disableAll h
  simp only [handleClose, setState, hdisable, Option.map_some]
  exact ⟨_, _, _, rfl, htracked.congr rfl rfl⟩

theorem tracked_connectEstablished (h : l.poller.Reflects c.channel)
    : ∃ c' l', c.connectEstablished l = some (c', l') ∧ Tracked c l c' l' := by
  obtain ⟨poller, channel, heq, htracked⟩ := Tracked.of_update h (c.channel.events ||| Channel.kReadEvent)
  have henable : c.channel.enableReading l.poller = some (poller, channel) := heq
  simp only [connectEstablished, setState, henable, Option.map_some]
  exact ⟨_, _, rfl, htracked.congr rfl rfl⟩

theorem tracked_remove (h : l.poller.Reflects c.channel)
    : ∃ poller channel, c.channel.remove l.poller = some (poller, channel) ∧ channel.index = .kNew
        ∧ Tracked c l { c with channel := channel } { l with poller := poller } := by
  obtain ⟨poller, heq, hreflects, hframe, _⟩ := EPollPoller.removeChannel_of_reflects h
  exact ⟨poller, _, heq, rfl, hreflects, hframe⟩

/--
`connectDestroyed` leaves the channel unknown to the poller.
-/
theorem tracked_connectDestroyed (h : l.poller.Reflects c.channel)
    : ∃ c' l' notices, c.connectDestroyed l = some (c', l', notices) ∧ c'.channel.index = .kNew
        ∧ Tracked c l c' l' := by
  unfold connectDestroyed
  dsimp only
  split
  . obtain ⟨poller, channel, hdisable, htracked⟩ := tracked_disableAll h
    obtain ⟨poller', channel', hremove, hnew, hremoved⟩ := tracked_remove htracked.reflects
    have hremove : channel.remove poller = some (poller', channel') := hremove
    simp only [setState, hdisable, Option.map_some, Option.bind_some, hremove]
    exact ⟨_, _, _, rfl, hnew, (htracked.trans hremoved).congr rfl rfl⟩
  . obtain ⟨poller, channel, hremove, hnew, hremoved⟩ := tracked_remove h
    simp only [Option.bind_some, hremove, Option.map_some]
    exact ⟨_, _, _, rfl, hnew, hremoved⟩

theorem tracked_send (bind : Functor → φ) (isInLoopThread : Bool) (message : Addr) (contents : List UInt8)
    (w : WriteResult) (h : l.poller.Reflects c.channel)
    : ∃ c' l', c.send bind isInLoopThread l message contents w = some (c', l') ∧ Tracked c l c' l' := by
  unfold send
  split
  . split
    . exact tracked_sendInLoop bind contents w h
    . exact ⟨_, _, rfl, .of_eq h rfl (EventLoop.poller_queueInLoop ..)⟩
  . exact ⟨_, _, rfl, .of_eq h rfl rfl⟩

theorem tracked_runCallback (bind : Task → φ) (n : Int) (w : WriteResult) (callback : Callback)
    (h : l.poller.Reflects c.channel)
    : ∃ c' l' notices, c.runCallback bind l n w callback = some (c', l', notices) ∧ Tracked c l c' l' := by
  cases callback with
  | read =>
    simp only [runCallback, handleRead]
    split
    . exact ⟨_, _, _, rfl, .of_eq h rfl rfl⟩
    . split
      . exact tracked_handleClose h
      . exact ⟨_, _, _, rfl, .of_eq h rfl rfl⟩
  | write =>
    obtain ⟨c', l', heq, htracked⟩ := tracked_handleWrite (bind ∘ .own) w h
    simp only [runCallback, heq, Option.map_some]
    exact ⟨_, _, _, rfl, htracked⟩
  | close => exact tracked_handleClose h
  | error => exact ⟨_, _, _, rfl, .of_eq h rfl rfl⟩

theorem tracked_runTask (bind : Task → φ) (message : List UInt8) (w : WriteResult) (task : Task)
    (h : l.poller.Reflects c.channel)
    : ∃ c' l' notices, c.runTask bind l message w task = some (c', l', notices) ∧ Tracked c l c' l'
        ∧ (task = .connectDestroyed → c'.channel.index = .kNew) := by
  cases task with
  | connectEstablished =>
    obtain ⟨c', l', heq, htracked⟩ := tracked_connectEstablished h
    simp only [runTask, heq, Option.map_some]
    exact ⟨_, _, _, rfl, htracked, by simp⟩
  | connectDestroyed =>
    obtain ⟨c', l', notices, heq, hnew, htracked⟩ := tracked_connectDestroyed h
    exact ⟨c', l', notices, heq, htracked, fun _ => hnew⟩
  | forceCloseInLoop =>
    simp only [runTask, forceCloseInLoop]
    split
    . obtain ⟨c', l', notices, heq, htracked⟩ := tracked_handleClose h
      exact ⟨c', l', notices, heq, htracked, by simp⟩
    . exact ⟨_, _, _, rfl, .of_eq h rfl rfl, by simp⟩
  | own f =>
    cases f with
    | sendInLoop =>
      obtain ⟨c', l', heq, htracked⟩ := tracked_sendInLoop (bind ∘ .own) message w h
      simp only [runTask, heq, Option.map_some]
      exact ⟨_, _, _, rfl, htracked, by simp⟩
    | shutdownInLoop => exact ⟨_, _, _, rfl, tracked_shutdownInLoop h, by simp⟩
    | writeCompleteCallback | highWaterMarkCallback => exact ⟨_, _, _, rfl, .of_eq h rfl rfl, by simp⟩

end TcpConnection

end MyMuduo
