import MyMuduo.TcpConnection.Lifecycle

/-!
This module contains that the functions of a connection change nothing in the poller but the entry of its
own channel, and keep what the channel is.
-/

namespace MyMuduo

universe u

namespace TcpConnection

variable {φ : Type u}

/--
The function has kept the identity of the channel, and all entries of other channels.
-/
structure Confined (c : TcpConnection) (l : EventLoop φ) (c' : TcpConnection) (l' : EventLoop φ) : Prop where
  fd : c'.channel.fd = c.channel.fd
  addr : c'.channel.addr = c.channel.addr
  poller : l.poller.Confined l'.poller c.channel.fd c.channel.addr

/--
The function has gone to the poller only with its own channel.
-/
structure Through (c : TcpConnection) (l : EventLoop φ) (c' : TcpConnection) (l' : EventLoop φ) : Prop where
  fd : c'.channel.fd = c.channel.fd
  addr : c'.channel.addr = c.channel.addr
  poller : EPollPoller.Called c.channel.fd c.channel.addr l.poller l'.poller

variable {bind : Functor → φ} {c c' : TcpConnection} {l l' : EventLoop φ}

theorem Through.confined (h : Through c l c' l') : Confined c l c' l' :=
  ⟨h.fd, h.addr, h.poller.confined⟩

theorem Through.of_eq (hchannel : c'.channel = c.channel) (hpoller : l'.poller = l.poller)
    : Through c l c' l' := by
  refine ⟨by rw [hchannel], by rw [hchannel], ?_⟩
  rw [hpoller]
  exact .refl

theorem Through.trans {c₁ : TcpConnection} {l₁ : EventLoop φ} (h₁ : Through c l c₁ l₁)
    (h₂ : Through c₁ l₁ c' l') : Through c l c' l' := by
  refine ⟨h₂.fd.trans h₁.fd, h₂.addr.trans h₁.addr, h₁.poller.trans ?_⟩
  rw [← h₁.fd, ← h₁.addr]
  exact h₂.poller

-- a call on the channel that goes through `updateChannel`
theorem Through.of_update {events : Events} {poller : EPollPoller} {channel : Channel}
    (h : l.poller.updateChannel { c.channel with events := events } = some (poller, channel))
    : Through c l { c with channel := channel } { l with poller := poller } := by
  obtain ⟨hfd, haddr, _⟩ := EPollPoller.updateChannel_cases h
  exact ⟨hfd, haddr, .update (c := { c.channel with events := events }) .refl rfl rfl h⟩

theorem through_keepRemaining {data : List UInt8} (h : c.keepRemaining bind l data = some (c', l'))
    : Through c l c' l' := by
  unfold keepRemaining at h
  dsimp only at h
  generalize hnotify : (decide (c.highWaterMark ≤ _) && _ && _) = notify at h
  have hpoller := poller_queueInLoop_if l notify true
    (bind (.highWaterMarkCallback (c.outputBuffer.readableBytes + data.length)))
  split at h
  . simp only [Option.map_eq_some_iff, Prod.mk.injEq] at h
    obtain ⟨⟨poller, channel⟩, henable, rfl, rfl⟩ := h
    rw [hpoller] at henable
    have hthrough : Through c l _ _ := .of_update henable
    exact ⟨hthrough.fd, hthrough.addr, hthrough.poller⟩
  . simp only [Option.some.injEq, Prod.mk.injEq] at h
    obtain ⟨rfl, rfl⟩ := h
    exact .of_eq rfl hpoller

theorem through_directWrite (bind : Functor → φ) (c : TcpConnection) (l : EventLoop φ)
    (message : List UInt8) (w : WriteResult)
    : Through c l (c.directWrite bind l message w).1 (c.directWrite bind l message w).2.1 := by
  unfold directWrite
  cases w with
  | accepted nwrote =>
    dsimp only
    split
    . exact .of_eq rfl (EventLoop.poller_queueInLoop ..)
    . exact .of_eq rfl rfl
  | failed errno => exact .of_eq rfl rfl

theorem through_sendInLoop {message : List UInt8} {w : WriteResult}
    (h : c.sendInLoop bind l message w = some (c', l')) : Through c l c' l' := by
  unfold sendInLoop at h
  split at h
  . simp only [Option.some.injEq, Prod.mk.injEq] at h
    obtain ⟨rfl, rfl⟩ := h
    exact .of_eq rfl rfl
  . dsimp only at h
    generalize hdirect : (if c.writesDirectly then _ else _) = direct at h
    have hthrough : Through c l direct.1 direct.2.1 := by
      rw [← hdirect]
      split
      . apply through_directWrite
      . exact .of_eq rfl rfl
    split at h
    . exact hthrough.trans (through_keepRemaining h)
    . simp only [Option.some.injEq, Prod.mk.injEq] at h
      rw [← h.1, ← h.2]
      exact hthrough

theorem through_drain {w : WriteResult} {drained : Bool} (h : c.drain bind l w = some (c', l', drained))
    : Through c l c' l' := by
  unfold drain at h
  dsimp only at h
  split at h
  . split at h
    . split at h
      . simp only [Option.map_eq_some_iff, Prod.mk.injEq] at h
        obtain ⟨⟨poller, channel⟩, hdisable, rfl, rfl, _⟩ := h
        have hthrough : Through c l _ _ := .of_update hdisable
        refine ⟨hthrough.fd, hthrough.addr, ?_⟩
        rw [poller_queueInLoop_if]
        exact hthrough.poller
      . simp only [Option.some.injEq, Prod.mk.injEq] at h
        obtain ⟨rfl, rfl, _⟩ := h
        exact .of_eq rfl rfl
    . simp only [Option.some.injEq, Prod.mk.injEq] at h
      obtain ⟨rfl, rfl, _⟩ := h
      exact .of_eq rfl rfl
  . simp only [Option.some.injEq, Prod.mk.injEq] at h
    obtain ⟨rfl, rfl, _⟩ := h
    exact .of_eq rfl rfl

theorem through_shutdownInLoop (c : TcpConnection) (l : EventLoop φ) : Through c l c.shutdownInLoop l := by
  unfold shutdownInLoop
  split <;> exact .of_eq rfl rfl

theorem through_handleWrite {w : WriteResult} (h : c.handleWrite bind l w = some (c', l'))
    : Through c l c' l' := by
  simp only [handleWrite, Option.map_eq_some_iff, Prod.mk.injEq] at h
  obtain ⟨⟨c₁, l₁, drained⟩, hdrain, rfl, rfl⟩ := h
  have hthrough := through_drain hdrain
  dsimp only
  split
  . unfold shutdownIfDisconnecting
    split
    . exact hthrough.trans (through_shutdownInLoop _ _)
    . exact hthrough
  . exact hthrough

theorem through_handleClose {notices : List Notice} (h : c.handleClose l = some (c', l', notices))
    : Through c l c' l' := by
  simp only [handleClose, Option.map_eq_some_iff, Prod.mk.injEq] at h
  obtain ⟨⟨poller, channel⟩, hdisable, rfl, rfl, _⟩ := h
  have hthrough : Through c l _ _ := .of_update hdisable
  exact ⟨hthrough.fd, hthrough.addr, hthrough.poller⟩

theorem through_connectEstablished (h : c.connectEstablished l = some (c', l')) : Through c l c' l' := by
  simp only [connectEstablished, Option.map_eq_some_iff, Prod.mk.injEq] at h
  obtain ⟨⟨poller, channel⟩, henable, rfl, rfl⟩ := h
  have hthrough : Through c l _ _ := .of_update henable
  exact ⟨hthrough.fd, hthrough.addr, hthrough.poller⟩

theorem through_remove {c : TcpConnection} {poller : EPollPoller} {channel : Channel}
    (h : c.channel.remove l.poller = some (poller, channel))
    : Through c l { c with channel := channel } { l with poller := poller } := by
  have hpoller : EPollPoller.Called c.channel.fd c.channel.addr l.poller poller := .remove .refl rfl rfl h
  unfold Channel.remove EPollPoller.removeChannel at h
  dsimp only at h
  split at h
  . simp only [Option.map_eq_some_iff, Prod.mk.injEq] at h
    obtain ⟨_, _, rfl, rfl⟩ := h
    exact ⟨rfl, rfl, hpoller⟩
  . simp only [Option.some.injEq, Prod.mk.injEq] at h
    obtain ⟨rfl, rfl⟩ := h
    exact ⟨rfl, rfl, hpoller⟩

theorem through_connectDestroyed {notices : List Notice} (h : c.connectDestroyed l = some (c', l', notices))
    : Through c l c' l' := by
  simp only [connectDestroyed, Option.bind_eq_some_iff] at h
  obtain ⟨⟨c₁, l₁, notices₁⟩, hclosed, hremove⟩ := h
  have hthrough : Through c l c₁ l₁ := by
    split at hclosed
    . simp only [Option.map_eq_some_iff, Prod.mk.injEq] at hclosed
      obtain ⟨⟨poller, channel⟩, hdisable, rfl, rfl, _⟩ := hclosed
      have hthrough : Through c l _ _ := .of_update hdisable
      exact ⟨hthrough.fd, hthrough.addr, hthrough.poller⟩
    . simp only [Option.some.injEq, Prod.mk.injEq] at hclosed
      obtain ⟨rfl, rfl, _⟩ := hclosed
      exact .of_eq rfl rfl
  simp only [Option.map_eq_some_iff, Prod.mk.injEq] at hremove
  obtain ⟨⟨poller, channel⟩, hremove, rfl, rfl, _⟩ := hremove
  exact hthrough.trans (through_remove hremove)

theorem through_send {isInLoopThread : Bool} {message : Addr} {contents : List UInt8} {w : WriteResult}
    (h : c.send bind isInLoopThread l message contents w = some (c', l')) : Through c l c' l' := by
  unfold send at h
  split at h
  . split at h
    . exact through_sendInLoop h
    . simp only [Option.some.injEq, Prod.mk.injEq] at h
      obtain ⟨rfl, rfl⟩ := h
      exact .of_eq rfl (EventLoop.poller_queueInLoop ..)
  . simp only [Option.some.injEq, Prod.mk.injEq] at h
    obtain ⟨rfl, rfl⟩ := h
    exact .of_eq rfl rfl

theorem through_runCallback {bind : Task → φ} {n : Int} {w : WriteResult} {callback : Callback}
    {notices : List Notice} (h : c.runCallback bind l n w callback = some (c', l', notices))
    : Through c l c' l' := by
  cases callback with
  | read =>
    simp only [runCallback, handleRead] at h
    split at h
    . simp only [Option.some.injEq, Prod.mk.injEq] at h
      obtain ⟨rfl, rfl, _⟩ := h
      exact .of_eq rfl rfl
    . split at h
      . exact through_handleClose h
      . simp only [Option.some.injEq, Prod.mk.injEq] at h
        obtain ⟨rfl, rfl, _⟩ := h
        exact .of_eq rfl rfl
  | write =>
    simp only [runCallback, Option.map_eq_some_iff, Prod.mk.injEq] at h
    obtain ⟨_, hwrite, rfl, rfl, _⟩ := h
    exact through_handleWrite hwrite
  | close => exact through_handleClose h
  | error =>
    simp only [runCallback, Option.some.injEq, Prod.mk.injEq] at h
    obtain ⟨rfl, rfl, _⟩ := h
    exact .of_eq rfl rfl

theorem through_runTask {bind : Task → φ} {message : List UInt8} {w : WriteResult} {task : Task}
    {notices : List Notice} (h : c.runTask bind l message w task = some (c', l', notices))
    : Through c l c' l' := by
  cases task with
  | connectEstablished =>
    simp only [runTask, Option.map_eq_some_iff, Prod.mk.injEq] at h
    obtain ⟨_, hestablish, rfl, rfl, _⟩ := h
    exact through_connectEstablished hestablish
  | connectDestroyed => exact through_connectDestroyed h
  | forceCloseInLoop =>
    simp only [runTask, forceCloseInLoop] at h
    split at h
    . exact through_handleClose h
    . simp only [Option.some.injEq, Prod.mk.injEq] at h
      obtain ⟨rfl, rfl, _⟩ := h
      exact .of_eq rfl rfl
  | own f =>
    cases f with
    | sendInLoop _ _ =>
      simp only [runTask, Option.map_eq_some_iff, Prod.mk.injEq] at h
      obtain ⟨_, hsend, rfl, rfl, _⟩ := h
      exact through_sendInLoop hsend
    | shutdownInLoop =>
      simp only [runTask, Option.some.injEq, Prod.mk.injEq] at h
      obtain ⟨rfl, rfl, _⟩ := h
      exact through_shutdownInLoop _ _
    | writeCompleteCallback | highWaterMarkCallback =>
      simp only [runTask, Option.some.injEq, Prod.mk.injEq] at h
      obtain ⟨rfl, rfl, _⟩ := h
      exact .of_eq rfl rfl

/-
What they queue: functors of the connection, behind what waits.
-/

theorem frame_handleClose {notices : List Notice} (h : c.handleClose l = some (c', l', notices))
    : l'.functors = l.functors ∧ l'.pendingFunctors = l.pendingFunctors := by
  simp only [handleClose, Option.map_eq_some_iff, Prod.mk.injEq] at h
  obtain ⟨_, _, _, rfl, _⟩ := h
  exact ⟨rfl, rfl⟩

theorem frame_connectEstablished (h : c.connectEstablished l = some (c', l'))
    : l'.functors = l.functors ∧ l'.pendingFunctors = l.pendingFunctors := by
  simp only [connectEstablished, Option.map_eq_some_iff, Prod.mk.injEq] at h
  obtain ⟨_, _, _, rfl⟩ := h
  exact ⟨rfl, rfl⟩

theorem frame_connectDestroyed {notices : List Notice} (h : c.connectDestroyed l = some (c', l', notices))
    : l'.functors = l.functors ∧ l'.pendingFunctors = l.pendingFunctors := by
  simp only [connectDestroyed, Option.bind_eq_some_iff] at h
  obtain ⟨⟨c₁, l₁, notices₁⟩, hclosed, hremove⟩ := h
  have hframe : l₁.functors = l.functors ∧ l₁.pendingFunctors = l.pendingFunctors := by
    split at hclosed
    . simp only [Option.map_eq_some_iff, Prod.mk.injEq] at hclosed
      obtain ⟨_, _, _, rfl, _⟩ := hclosed
      exact ⟨rfl, rfl⟩
    . simp only [Option.some.injEq, Prod.mk.injEq] at hclosed
      obtain ⟨_, rfl, _⟩ := hclosed
      exact ⟨rfl, rfl⟩
  simp only [Option.map_eq_some_iff, Prod.mk.injEq] at hremove
  obtain ⟨_, _, _, rfl, _⟩ := hremove
  exact hframe

theorem frame_runCallback {bind : Task → φ} {n : Int} {w : WriteResult} {callback : Callback}
    {notices : List Notice} (h : c.runCallback bind l n w callback = some (c', l', notices))
    : l'.functors = l.functors
        ∧ ∃ fs : List Functor, l'.pendingFunctors = l.pendingFunctors ++ fs.map (bind ∘ .own) := by
  obtain hquiet | ⟨_, hclose⟩ := runCallback_cases h
  . exact ⟨hquiet.functors, hquiet.pending⟩
  . obtain ⟨hfunctors, hpending⟩ := frame_handleClose hclose
    exact ⟨hfunctors, [], by simp [hpending]⟩

theorem frame_runTask {bind : Task → φ} {message : List UInt8} {w : WriteResult} {task : Task}
    {notices : List Notice} (h : c.runTask bind l message w task = some (c', l', notices))
    : l'.functors = l.functors
        ∧ ∃ fs : List Functor, l'.pendingFunctors = l.pendingFunctors ++ fs.map (bind ∘ .own) := by
  by_cases hopen : task = .connectEstablished
  . subst hopen
    simp only [runTask, Option.map_eq_some_iff, Prod.mk.injEq] at h
    obtain ⟨_, hestablish, rfl, rfl, _⟩ := h
    obtain ⟨hfunctors, hpending⟩ := frame_connectEstablished hestablish
    exact ⟨hfunctors, [], by simp [hpending]⟩
  . obtain ⟨hquiet, _⟩ | ⟨_, _, hclose⟩ | ⟨_, hdestroy⟩ := runTask_cases h hopen
    . exact ⟨hquiet.functors, hquiet.pending⟩
    . obtain ⟨hfunctors, hpending⟩ := frame_handleClose hclose
      exact ⟨hfunctors, [], by simp [hpending]⟩
    . obtain ⟨hfunctors, hpending⟩ := frame_connectDestroyed hdestroy
      exact ⟨hfunctors, [], by simp [hpending]⟩

end TcpConnection

end MyMuduo
