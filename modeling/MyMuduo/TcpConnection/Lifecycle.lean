import MyMuduo.Poller.Lemmas
import MyMuduo.TcpConnection.Output

/-!
This module contains the life of a connection: `connectEstablished` and `connectDestroyed`, the callbacks
of its channel, `forceClose`, and the callbacks of the user and of the server that they invoke.
-/

namespace MyMuduo

universe u

namespace TcpConnection

/--
The callbacks that a connection invokes: `connectionCallback_` with what `connected()` says at that moment,
`messageCallback_` and `closeCallback_`.
-/
inductive Notice where
  | connectionCallback (connected : Bool)
  | messageCallback
  | closeCallback
  deriving DecidableEq, Repr

-- all functors that are queued for a connection on its loop
inductive Task where
  | connectEstablished
  | connectDestroyed
  | forceCloseInLoop
  | own (f : Functor)
  deriving DecidableEq, Repr

def connected (c : TcpConnection) : Bool :=
  c.state_ = .kConnected

variable {φ : Type u}

def handleClose (c : TcpConnection) (l : EventLoop φ) : Option (TcpConnection × EventLoop φ × List Notice) :=
  let c := c.setState .kDisconnected
  (c.channel.disableAll l.poller).map fun (poller, channel) =>
    let c := { c with channel := channel }
    (c, { l with poller := poller }, [.connectionCallback c.connected, .closeCallback])

-- `n` is what `readFd` returns; `handleError` reads `SO_ERROR` and logs it
def handleRead (c : TcpConnection) (l : EventLoop φ) (n : Int)
    : Option (TcpConnection × EventLoop φ × List Notice) :=
  if 0 < n then
    some (c, l, [.messageCallback])
  else if n = 0 then
    c.handleClose l
  else
    some (c, l, [])

def forceCloseInLoop (c : TcpConnection) (l : EventLoop φ)
    : Option (TcpConnection × EventLoop φ × List Notice) :=
  if c.state_ = .kConnected ∨ c.state_ = .kDisconnecting then
    c.handleClose l
  else
    some (c, l, [])

def connectDestroyed (c : TcpConnection) (l : EventLoop φ)
    : Option (TcpConnection × EventLoop φ × List Notice) :=
  let closed : Option (TcpConnection × EventLoop φ × List Notice) :=
    if c.state_ = .kConnected then
      let c := c.setState .kDisconnected
      (c.channel.disableAll l.poller).map fun (poller, channel) =>
        let c := { c with channel := channel }
        (c, { l with poller := poller }, [.connectionCallback c.connected])
    else
      some (c, l, [])
  closed.bind fun (c, l, notices) =>
    (c.channel.remove l.poller).map fun (poller, channel) =>
      ({ c with channel := channel }, { l with poller := poller }, notices)

/-
The calls of the user. `isInLoopThread` says whether the caller is the loop thread.
-/

def shutdown (bind : Functor → φ) (isInLoopThread : Bool) (c : TcpConnection) (l : EventLoop φ)
    : TcpConnection × EventLoop φ :=
  if c.state_ = .kConnected then
    let c := c.setState .kDisconnecting
    if isInLoopThread then
      (c.shutdownInLoop, l)
    else
      (c, l.queueInLoop false (bind .shutdownInLoop))
  else
    (c, l)

-- `contents` are the bytes at `message` now
def send (bind : Functor → φ) (isInLoopThread : Bool) (c : TcpConnection) (l : EventLoop φ) (message : Addr)
    (contents : List UInt8) (w : WriteResult) : Option (TcpConnection × EventLoop φ) :=
  if c.state_ = .kConnected then
    if isInLoopThread then
      c.sendInLoop bind l contents w
    else
      some (c, l.queueInLoop false (bind (.sendInLoop message contents.length)))
  else
    some (c, l)

def forceClose (bind : Task → φ) (isInLoopThread : Bool) (c : TcpConnection) (l : EventLoop φ)
    : TcpConnection × EventLoop φ :=
  if c.state_ = .kConnected ∨ c.state_ = .kDisconnecting then
    (c.setState .kDisconnecting, l.queueInLoop isInLoopThread (bind .forceCloseInLoop))
  else
    (c, l)

-- a callback of the channel
def runCallback (bind : Task → φ) (c : TcpConnection) (l : EventLoop φ) (n : Int) (w : WriteResult)
    : Callback → Option (TcpConnection × EventLoop φ × List Notice)
  | .read => c.handleRead l n
  | .write => (c.handleWrite (bind ∘ .own) l w).map fun (c, l) => (c, l, [])
  | .close => c.handleClose l
  | .error => some (c, l, [])

-- `message` are the bytes that the pointer of a `sendInLoop` refers to when it is executed
def runTask (bind : Task → φ) (c : TcpConnection) (l : EventLoop φ) (message : List UInt8) (w : WriteResult)
    : Task → Option (TcpConnection × EventLoop φ × List Notice)
  | .connectEstablished =>
    (c.connectEstablished l).map fun (c, l) => (c, l, [.connectionCallback c.connected])
  | .connectDestroyed => c.connectDestroyed l
  | .forceCloseInLoop => c.forceCloseInLoop l
  | .own (.sendInLoop _ _) => (c.sendInLoop (bind ∘ .own) l message w).map fun (c, l) => (c, l, [])
  | .own .shutdownInLoop => some (c.shutdownInLoop, l, [])
  | .own .writeCompleteCallback | .own (.highWaterMarkCallback _) => some (c, l, [])

/-
What they do to the state and to the channel.
-/

variable {bind : Functor → φ} {c c' : TcpConnection} {l l' : EventLoop φ}

/--
The state is kept, and the channel as far as it is in use.
-/
structure Unchanged (c : TcpConnection) (l : EventLoop φ) (c' : TcpConnection) (l' : EventLoop φ) : Prop
    where
  state_ : c'.state_ = c.state_
  channel : c.channel.Kept l.poller c'.channel l'.poller

theorem Unchanged.refl (c : TcpConnection) (l : EventLoop φ) : Unchanged c l c l :=
  ⟨rfl, .refl _ _⟩

theorem Unchanged.trans {c₁ : TcpConnection} {l₁ : EventLoop φ} (h₁ : Unchanged c l c₁ l₁)
    (h₂ : Unchanged c₁ l₁ c' l') : Unchanged c l c' l' :=
  ⟨h₂.state_.trans h₁.state_, h₁.channel.trans h₂.channel⟩

theorem Unchanged.of_eq (hstate : c'.state_ = c.state_) (hchannel : c'.channel = c.channel)
    (hpoller : l'.poller = l.poller) : Unchanged c l c' l' := by
  refine ⟨hstate, ?_⟩
  rw [hchannel, hpoller]
  exact .refl _ _

theorem poller_queueInLoop_if (l : EventLoop φ) (test : Bool) (isInLoopThread : Bool) (cb : φ)
    : (if test then l.queueInLoop isInLoopThread cb else l).poller = l.poller := by
  split
  . exact EventLoop.poller_queueInLoop ..
  . rfl

theorem unchanged_shutdownInLoop (c : TcpConnection) (l : EventLoop φ) : Unchanged c l c.shutdownInLoop l := by
  unfold shutdownInLoop
  split <;> exact .of_eq rfl rfl rfl

theorem unchanged_keepRemaining {data : List UInt8} (h : c.keepRemaining bind l data = some (c', l'))
    : Unchanged c l c' l' := by
  unfold keepRemaining at h
  dsimp only at h
  generalize hnotify : (decide (c.highWaterMark ≤ _) && _ && _) = notify at h
  have hpoller := poller_queueInLoop_if l notify true
    (bind (.highWaterMarkCallback (c.outputBuffer.readableBytes + data.length)))
  split at h
  . simp only [Option.map_eq_some_iff, Prod.mk.injEq] at h
    obtain ⟨⟨poller, channel⟩, henable, rfl, rfl⟩ := h
    rw [hpoller] at henable
    exact ⟨rfl, Channel.kept_enableWriting henable⟩
  . simp only [Option.some.injEq, Prod.mk.injEq] at h
    obtain ⟨rfl, rfl⟩ := h
    exact .of_eq rfl rfl hpoller

theorem unchanged_directWrite (bind : Functor → φ) (c : TcpConnection) (l : EventLoop φ)
    (message : List UInt8) (w : WriteResult)
    : Unchanged c l (c.directWrite bind l message w).1 (c.directWrite bind l message w).2.1 := by
  unfold directWrite
  cases w with
  | accepted nwrote =>
    dsimp only
    split
    . exact .of_eq rfl rfl (EventLoop.poller_queueInLoop ..)
    . exact .of_eq rfl rfl rfl
  | failed errno => exact .of_eq rfl rfl rfl

theorem unchanged_sendInLoop {message : List UInt8} {w : WriteResult}
    (h : c.sendInLoop bind l message w = some (c', l')) : Unchanged c l c' l' := by
  unfold sendInLoop at h
  split at h
  . simp only [Option.some.injEq, Prod.mk.injEq] at h
    obtain ⟨rfl, rfl⟩ := h
    exact .refl c l
  . dsimp only at h
    generalize hdirect : (if c.writesDirectly then _ else _) = direct at h
    have hunchanged : Unchanged c l direct.1 direct.2.1 := by
      rw [← hdirect]
      split
      . apply unchanged_directWrite
      . exact .refl c l
    split at h
    . exact hunchanged.trans (unchanged_keepRemaining h)
    . simp only [Option.some.injEq, Prod.mk.injEq] at h
      rw [← h.1, ← h.2]
      exact hunchanged

theorem unchanged_drain {w : WriteResult} {drained : Bool} (h : c.drain bind l w = some (c', l', drained))
    : Unchanged c l c' l' := by
  unfold drain at h
  dsimp only at h
  split at h
  . split at h
    . split at h
      . simp only [Option.map_eq_some_iff, Prod.mk.injEq] at h
        obtain ⟨⟨poller, channel⟩, hdisable, rfl, rfl, _⟩ := h
        refine ⟨rfl, ?_⟩
        rw [poller_queueInLoop_if]
        exact Channel.kept_disableWriting hdisable
      . simp only [Option.some.injEq, Prod.mk.injEq] at h
        obtain ⟨rfl, rfl, _⟩ := h
        exact .of_eq rfl rfl rfl
    . simp only [Option.some.injEq, Prod.mk.injEq] at h
      obtain ⟨rfl, rfl, _⟩ := h
      exact .of_eq rfl rfl rfl
  . simp only [Option.some.injEq, Prod.mk.injEq] at h
    obtain ⟨rfl, rfl, _⟩ := h
    exact .refl c l

theorem unchanged_handleWrite {w : WriteResult} (h : c.handleWrite bind l w = some (c', l'))
    : Unchanged c l c' l' := by
  simp only [handleWrite, Option.map_eq_some_iff, Prod.mk.injEq] at h
  obtain ⟨⟨c₁, l₁, drained⟩, hdrain, rfl, rfl⟩ := h
  have hunchanged := unchanged_drain hdrain
  dsimp only
  split
  . unfold shutdownIfDisconnecting
    split
    . exact hunchanged.trans (unchanged_shutdownInLoop _ _)
    . exact hunchanged
  . exact hunchanged

theorem sendInLoop_of_disconnected (bind : Functor → φ) (hstate : c.state_ = .kDisconnected)
    (l : EventLoop φ) (message : List UInt8) (w : WriteResult)
    : c.sendInLoop bind l message w = some (c, l) := by
  rw [sendInLoop, if_pos hstate]

theorem handleWrite_of_not_isWriting (bind : Functor → φ) (hwriting : c.channel.isWriting = false)
    (l : EventLoop φ) (w : WriteResult) : c.handleWrite bind l w = some (c, l) := by
  simp [handleWrite, drain, hwriting]

theorem frame_handleWrite {w : WriteResult} (h : c.handleWrite bind l w = some (c', l'))
    : l'.functors = l.functors ∧ ∃ fs : List Functor, l'.pendingFunctors = l.pendingFunctors ++ fs.map bind := by
  simp only [handleWrite, Option.map_eq_some_iff, Prod.mk.injEq] at h
  obtain ⟨⟨c₁, l₁, drained⟩, hdrain, rfl, rfl⟩ := h
  have hframe := drain_frame hdrain
  obtain ⟨fs, hpending, _⟩ := hframe.notices
  exact ⟨hframe.functors, fs, hpending⟩

theorem frame_sendInLoop {message : List UInt8} {w : WriteResult}
    (h : c.sendInLoop bind l message w = some (c', l'))
    : l'.functors = l.functors ∧ ∃ fs : List Functor, l'.pendingFunctors = l.pendingFunctors ++ fs.map bind := by
  have hframe := sendInLoop_frame h
  obtain ⟨fs, hpending, _⟩ := hframe.notices
  exact ⟨hframe.functors, fs, hpending⟩

/--
A handler that neither opens nor closes the connection. On a closed connection it touches no channel.
-/
structure Quiet (bind : Functor → φ) (c : TcpConnection) (l : EventLoop φ) (c' : TcpConnection)
    (l' : EventLoop φ) (notices : List Notice) : Prop extends Unchanged c l c' l' where
  closed : c.state_ = .kDisconnected → c.channel.isWriting = false →
    c'.channel = c.channel ∧ l'.poller = l.poller
  functors : l'.functors = l.functors
  pending : ∃ fs : List Functor, l'.pendingFunctors = l.pendingFunctors ++ fs.map bind
  notices : ∀ notice ∈ notices, notice = .messageCallback

theorem Quiet.of_eq {notices : List Notice} (hstate : c'.state_ = c.state_) (hchannel : c'.channel = c.channel)
    (hnotices : ∀ notice ∈ notices, notice = .messageCallback) : Quiet bind c l c' l notices :=
  ⟨.of_eq hstate hchannel rfl, fun _ _ => ⟨hchannel, rfl⟩, rfl, ⟨[], by simp⟩, hnotices⟩

theorem quiet_shutdownInLoop (bind : Functor → φ) (c : TcpConnection) (l : EventLoop φ)
    : Quiet bind c l c.shutdownInLoop l [] := by
  unfold shutdownInLoop
  split <;> exact .of_eq rfl rfl (by simp)

theorem quiet_sendInLoop {message : List UInt8} {w : WriteResult}
    (h : c.sendInLoop bind l message w = some (c', l')) : Quiet bind c l c' l' [] := by
  obtain ⟨hfunctors, hpending⟩ := frame_sendInLoop h
  refine ⟨unchanged_sendInLoop h, ?_, hfunctors, hpending, by simp⟩
  intro hstate _
  rw [sendInLoop_of_disconnected bind hstate, Option.some.injEq, Prod.mk.injEq] at h
  obtain ⟨rfl, rfl⟩ := h
  exact ⟨rfl, rfl⟩

theorem quiet_handleWrite {w : WriteResult} (h : c.handleWrite bind l w = some (c', l'))
    : Quiet bind c l c' l' [] := by
  obtain ⟨hfunctors, hpending⟩ := frame_handleWrite h
  refine ⟨unchanged_handleWrite h, ?_, hfunctors, hpending, by simp⟩
  intro _ hwriting
  rw [handleWrite_of_not_isWriting bind hwriting, Option.some.injEq, Prod.mk.injEq] at h
  obtain ⟨rfl, rfl⟩ := h
  exact ⟨rfl, rfl⟩

theorem quiet_send {isInLoopThread : Bool} {message : Addr} {contents : List UInt8} {w : WriteResult}
    (h : c.send bind isInLoopThread l message contents w = some (c', l')) : Quiet bind c l c' l' [] := by
  unfold send at h
  split at h
  . split at h
    . exact quiet_sendInLoop h
    . simp only [Option.some.injEq, Prod.mk.injEq] at h
      obtain ⟨rfl, rfl⟩ := h
      have hpoller : (l.queueInLoop false (bind (.sendInLoop message contents.length))).poller = l.poller :=
        EventLoop.poller_queueInLoop ..
      refine ⟨.of_eq rfl rfl hpoller, fun _ _ => ⟨rfl, hpoller⟩, EventLoop.functors_queueInLoop .., ?_, by simp⟩
      exact ⟨[.sendInLoop message contents.length], EventLoop.pendingFunctors_queueInLoop ..⟩
  . simp only [Option.some.injEq, Prod.mk.injEq] at h
    obtain ⟨rfl, rfl⟩ := h
    exact .of_eq rfl rfl (by simp)

theorem runCallback_cases {bind : Task → φ} {n : Int} {w : WriteResult} {callback : Callback}
    {notices : List Notice} (h : c.runCallback bind l n w callback = some (c', l', notices))
    : Quiet (bind ∘ .own) c l c' l' notices
        ∨ (callback = .close ∨ callback = .read ∧ n = 0) ∧ c.handleClose l = some (c', l', notices) := by
  cases callback with
  | read =>
    simp only [runCallback, handleRead] at h
    split at h
    . simp only [Option.some.injEq, Prod.mk.injEq] at h
      obtain ⟨rfl, rfl, rfl⟩ := h
      exact .inl (.of_eq rfl rfl (by simp))
    . split at h
      . next hzero => exact .inr ⟨.inr ⟨rfl, hzero⟩, h⟩
      . simp only [Option.some.injEq, Prod.mk.injEq] at h
        obtain ⟨rfl, rfl, rfl⟩ := h
        exact .inl (.of_eq rfl rfl (by simp))
  | write =>
    simp only [runCallback, Option.map_eq_some_iff, Prod.mk.injEq] at h
    obtain ⟨_, hwrite, rfl, rfl, rfl⟩ := h
    exact .inl (quiet_handleWrite hwrite)
  | close => exact .inr ⟨.inl rfl, h⟩
  | error =>
    simp only [runCallback, Option.some.injEq, Prod.mk.injEq] at h
    obtain ⟨rfl, rfl, rfl⟩ := h
    exact .inl (.of_eq rfl rfl (by simp))

theorem runTask_cases {bind : Task → φ} {message : List UInt8} {w : WriteResult} {task : Task}
    {notices : List Notice} (h : c.runTask bind l message w task = some (c', l', notices))
    (hopen : task ≠ .connectEstablished)
    : Quiet (bind ∘ .own) c l c' l' notices ∧ task ≠ .connectDestroyed
        ∨ task = .forceCloseInLoop ∧ (c.state_ = .kConnected ∨ c.state_ = .kDisconnecting)
          ∧ c.handleClose l = some (c', l', notices)
        ∨ task = .connectDestroyed ∧ c.connectDestroyed l = some (c', l', notices) := by
  cases task with
  | connectEstablished => exact absurd rfl hopen
  | connectDestroyed => exact .inr (.inr ⟨rfl, h⟩)
  | forceCloseInLoop =>
    simp only [runTask, forceCloseInLoop] at h
    split at h
    . next hstate => exact .inr (.inl ⟨rfl, hstate, h⟩)
    . simp only [Option.some.injEq, Prod.mk.injEq] at h
      obtain ⟨rfl, rfl, rfl⟩ := h
      exact .inl ⟨.of_eq rfl rfl (by simp), by simp⟩
  | own f =>
    left
    refine ⟨?_, by simp⟩
    cases f with
    | sendInLoop _ _ =>
      simp only [runTask, Option.map_eq_some_iff, Prod.mk.injEq] at h
      obtain ⟨_, hsend, rfl, rfl, rfl⟩ := h
      exact quiet_sendInLoop hsend
    | shutdownInLoop =>
      simp only [runTask, Option.some.injEq, Prod.mk.injEq] at h
      obtain ⟨rfl, rfl, rfl⟩ := h
      exact quiet_shutdownInLoop _ _ _
    | writeCompleteCallback | highWaterMarkCallback =>
      simp only [runTask, Option.some.injEq, Prod.mk.injEq] at h
      obtain ⟨rfl, rfl, rfl⟩ := h
      exact .of_eq rfl rfl (by simp)

theorem shutdown_spec (bind : Functor → φ) (isInLoopThread : Bool) (c : TcpConnection) (l : EventLoop φ)
    : ∃ c' l', c.shutdown bind isInLoopThread l = (c', l') ∧ c'.channel = c.channel ∧ l'.poller = l.poller
        ∧ l'.functors = l.functors
        ∧ (∃ fs : List Functor, l'.pendingFunctors = l.pendingFunctors ++ fs.map bind)
        ∧ c'.state_ = if c.state_ = .kConnected then .kDisconnecting else c.state_ := by
  unfold shutdown
  split
  . dsimp only
    split
    . have hquiet := quiet_shutdownInLoop bind (c.setState .kDisconnecting) l
      refine ⟨_, _, rfl, ?_, rfl, rfl, ⟨[], by simp⟩, hquiet.state_⟩
      unfold shutdownInLoop
      split <;> rfl
    . exact ⟨_, _, rfl, rfl, EventLoop.poller_queueInLoop .., EventLoop.functors_queueInLoop ..,
        ⟨[.shutdownInLoop], EventLoop.pendingFunctors_queueInLoop ..⟩, rfl⟩
  . exact ⟨_, _, rfl, rfl, rfl, rfl, ⟨[], by simp⟩, rfl⟩

theorem forceClose_spec (bind : Task → φ) (isInLoopThread : Bool) (c : TcpConnection) (l : EventLoop φ)
    : ∃ c' l', c.forceClose bind isInLoopThread l = (c', l') ∧ c'.channel = c.channel ∧ l'.poller = l.poller
        ∧ l'.functors = l.functors
        ∧ (c.state_ = .kConnected ∨ c.state_ = .kDisconnecting →
          l'.pendingFunctors = l.pendingFunctors ++ [bind .forceCloseInLoop] ∧ c'.state_ = .kDisconnecting)
        ∧ (¬(c.state_ = .kConnected ∨ c.state_ = .kDisconnecting) → c' = c ∧ l' = l) := by
  unfold forceClose
  split
  . next hstate =>
    exact ⟨_, _, rfl, rfl, EventLoop.poller_queueInLoop .., EventLoop.functors_queueInLoop ..,
      fun _ => ⟨EventLoop.pendingFunctors_queueInLoop .., rfl⟩, fun hnot => absurd hstate hnot⟩
  . next hstate => exact ⟨_, _, rfl, rfl, rfl, rfl, fun h => absurd h hstate, fun _ => ⟨rfl, rfl⟩⟩

theorem handleClose_spec (hsynced : c.channel.Synced l.poller)
    : ∃ c' l', c.handleClose l = some (c', l', [.connectionCallback false, .closeCallback])
        ∧ c'.state_ = .kDisconnected ∧ c'.channel.Synced l'.poller ∧ c'.channel.events = Channel.kNoneEvent
        ∧ c'.channel.fd = c.channel.fd
        ∧ l'.pendingFunctors = l.pendingFunctors ∧ l'.functors = l.functors := by
  obtain ⟨poller, channel, heq, hsynced', hevents, hfd, _⟩ := Channel.disableAll_of_synced hsynced
  refine ⟨{ c.setState .kDisconnected with channel := channel }, { l with poller := poller }, ?_, rfl, hsynced',
    hevents, hfd, rfl, rfl⟩
  simp only [handleClose, setState, heq, Option.map_some]
  rfl

/--
`handleClose` on a channel in use.
-/
theorem handleClose_of_registered (hsynced : c.channel.Synced l.poller) (hindex : c.channel.index = .kAdded)
    : ∃ c' l', c.handleClose l = some (c', l', [.connectionCallback false, .closeCallback])
        ∧ c'.state_ = .kDisconnected ∧ c'.channel.Synced l'.poller ∧ c'.channel.events = Channel.kNoneEvent
        ∧ c'.channel.fd = c.channel.fd ∧ c'.channel.callbacks = c.channel.callbacks
        ∧ l'.poller.epoll c.channel.fd = none
        ∧ l'.pendingFunctors = l.pendingFunctors ∧ l'.functors = l.functors := by
  obtain ⟨poller, channel, heq, hsynced', hevents, _, habsent, hfd, hcallbacks⟩ :=
    Channel.disableAll_of_registered hsynced hindex
  refine ⟨{ c.setState .kDisconnected with channel := channel }, { l with poller := poller }, ?_, rfl, hsynced',
    hevents, hfd, hcallbacks, habsent, rfl, rfl⟩
  simp only [handleClose, setState, heq, Option.map_some]
  rfl

/--
What `connectDestroyed` leaves: no trace of the channel, and the end of a connection that was up.
-/
theorem connectDestroyed_spec (hsynced : c.channel.Synced l.poller)
    (hindex : c.state_ = .kConnected → c.channel.index = .kAdded)
    : ∃ c' l', c.connectDestroyed l
          = some (c', l', if c.state_ = .kConnected then [.connectionCallback false] else [])
        ∧ c'.state_ = (if c.state_ = .kConnected then .kDisconnected else c.state_)
        ∧ c'.channel.events = (if c.state_ = .kConnected then Channel.kNoneEvent else c.channel.events)
        ∧ c'.channel.index = .kNew ∧ c'.channel.fd = c.channel.fd
        ∧ c'.channel.callbacks = c.channel.callbacks
        ∧ l'.poller.channels c.channel.fd = none ∧ l'.poller.epoll c.channel.fd = none
        ∧ l'.pendingFunctors = l.pendingFunctors ∧ l'.functors = l.functors := by
  by_cases hstate : c.state_ = .kConnected
  . obtain ⟨poller, channel, heq, hsynced', hevents, _, _, hfd, hcallbacks⟩ :=
      Channel.disableAll_of_registered hsynced (hindex hstate)
    obtain ⟨poller', hremove, hchannels, hepoll⟩ := Channel.remove_of_synced hsynced'
    rw [hfd] at hchannels hepoll
    refine ⟨{ c with state_ := .kDisconnected, channel := { channel with index := .kNew } },
      { l with poller := poller' }, ?_, ?_, ?_, rfl, hfd, hcallbacks, hchannels, hepoll, rfl, rfl⟩
    . simp only [connectDestroyed, if_pos hstate, setState, heq, Option.map_some, Option.bind_some, hremove]
      rfl
    . rw [if_pos hstate]
    . rw [if_pos hstate, hevents]
  . obtain ⟨poller', hremove, hchannels, hepoll⟩ := Channel.remove_of_synced hsynced
    refine ⟨{ c with channel := { c.channel with index := .kNew } }, { l with poller := poller' }, ?_, ?_, ?_,
      rfl, rfl, rfl, hchannels, hepoll, rfl, rfl⟩
    . simp only [connectDestroyed, if_neg hstate, Option.bind_some, hremove, Option.map_some]
    . rw [if_neg hstate]
    . rw [if_neg hstate]

/--
`connectEstablished` on a fresh channel.
-/
theorem connectEstablished_spec (hindex : c.channel.index = .kNew) (hevents : c.channel.events = 0)
    (habsent : l.poller.epoll c.channel.fd = none)
    : ∃ c' l', c.connectEstablished l = some (c', l') ∧ c'.state_ = .kConnected
        ∧ c'.channel.Synced l'.poller ∧ c'.channel.Registered ∧ c'.channel.fd = c.channel.fd
        ∧ l'.pendingFunctors = l.pendingFunctors ∧ l'.functors = l.functors := by
  obtain ⟨poller, channel, heq, hsynced, hregistered, hfd⟩ := Channel.enableReading_of_new hindex hevents habsent
  refine ⟨{ c with state_ := .kConnected, channel := channel }, { l with poller := poller }, ?_, rfl, hsynced,
    hregistered, hfd, rfl, rfl⟩
  simp only [connectEstablished, setState, heq, Option.map_some]

end TcpConnection

end MyMuduo
