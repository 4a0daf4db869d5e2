import MyMuduo.TcpClient.Basic
import MyMuduo.TcpConnection.Pairing

/-!
This module contains the stages in the life of a connection that a client has made: what its log, its state and
its channel are in each of them, what waits for it, and where the loop thread is.
-/

namespace MyMuduo

namespace TcpClient

open TcpConnection (Task Notice Functor Quiet)

def Handler.concerns (i : Nat) : Handler → Bool
  | .newConnection _ => false
  | .connectEstablished j | .closeCallback j | .removeConnection j => j = i

-- the functors that wait, in the order in which they will run
def queueOf (l : EventLoop ClientTask) : List ClientTask :=
  l.functors ++ l.pendingFunctors

/--
What the loop knows of a connection: the entries of its channel in the interest set and in `channels_`, how many
`connectDestroyed` wait for it, the callbacks of its `handleEvent` in progress, and its handler in progress.
-/
structure View where
  epoll : Option (Events × Addr)
  channels : Option Addr
  destroys : Nat
  todo : List Callback
  handler : Option Handler

def ClientLoop.view (s : ClientLoop) (i : Nat) (x : Made) : View where
  epoll := s.loop.poller.epoll x.conn.channel.fd
  channels := s.loop.poller.channels x.conn.channel.fd
  destroys := (queueOf s.loop).count (.conn i .connectDestroyed)
  todo := if s.active = i then s.todo else []
  handler := s.handler.filter (·.concerns i)

/--
The connection is closed, and nothing that is reported closes it again.
-/
structure Shut (x : Made) (v : View) : Prop where
  state_ : x.conn.state_ = .kDisconnected
  events : x.conn.channel.events = Channel.kNoneEvent
  epoll : v.epoll = none
  index : x.conn.channel.index ≠ .kAdded
  close : .close ∉ v.todo
  read : .read ∉ v.todo

/--
How far the connection with the number `i` has come.
-/
inductive Stage (i : Nat) (x : Made) (v : View) : Prop where
  | made (log : x.log = []) (state_ : x.conn.state_ = .kConnecting) (index : x.conn.channel.index = .kNew)
    (events : x.conn.channel.events = 0) (epoll : v.epoll = none) (destroys : v.destroys = 0) (todo : v.todo = [])
    (handler : v.handler = some (.connectEstablished i))
  | up (log : x.log = [.connectEstablished]) (state_ : x.conn.state_ = .kConnected ∨ x.conn.state_ = .kDisconnecting)
    (synced : v.epoll.isSome ↔ x.conn.channel.index = .kAdded) (registered : x.conn.channel.Registered)
    (destroys : v.destroys = 0) (handler : v.handler = none)
  | closing (log : x.log = [.connectEstablished, .handleClose]) (shut : Shut x v) (destroys : v.destroys = 0)
    (handler : v.handler = some (.closeCallback i) ∨ v.handler = some (.removeConnection i))
  | closed (log : x.log = [.connectEstablished, .handleClose]) (shut : Shut x v) (destroys : v.destroys = 1)
    (handler : v.handler = none)
  | destroyed (log : x.log = [.connectEstablished, .handleClose, .connectDestroyed]) (shut : Shut x v)
    (channels : v.channels = none) (destroys : v.destroys = 0) (handler : v.handler = none)

variable {i : Nat} {x x' : Made} {v v' : View} {l l' : EventLoop ClientTask} {notices : List Notice}

/--
A change of what waits for the connection that leaves the stage.
-/
structure View.Same (v v' : View) : Prop where
  destroys : v'.destroys = v.destroys
  todo : ∀ callback ∈ v'.todo, callback ∈ v.todo
  handler : v'.handler = v.handler

theorem View.Same.refl (v : View) : View.Same v v :=
  ⟨rfl, fun _ hmem => hmem, rfl⟩

theorem Shut.same (h : Shut x v) (hsame : View.Same v v') (hstate : x'.conn.state_ = x.conn.state_)
    (hchannel : x'.conn.channel = x.conn.channel) (hepoll : v'.epoll = v.epoll) : Shut x' v' := by
  refine ⟨hstate.trans h.state_, ?_, hepoll.trans h.epoll, ?_, fun hmem => h.close (hsame.todo _ hmem),
    fun hmem => h.read (hsame.todo _ hmem)⟩
  . rw [hchannel]
    exact h.events
  . rw [hchannel]
    exact h.index

theorem Stage.of_same (h : Stage i x v) (hsame : View.Same v v') (hepoll : v'.epoll = v.epoll)
    (hchannels : v'.channels = v.channels) : Stage i x v' := by
  have hshut : Shut x v → Shut x v' := fun hshut => hshut.same hsame rfl rfl hepoll
  cases h with
  | made log state_ index events epoll destroys todo handler =>
    refine .made log state_ index events (hepoll.trans epoll) (hsame.destroys.trans destroys) ?_
      (hsame.handler.trans handler)
    rw [List.eq_nil_iff_forall_not_mem]
    intro callback hmem
    have hold := hsame.todo callback hmem
    rw [todo] at hold
    cases hold
  | up log state_ synced registered destroys handler =>
    exact .up log state_ (hepoll ▸ synced) registered (hsame.destroys.trans destroys) (hsame.handler.trans handler)
  | closing log shut destroys handler =>
    exact .closing log (hshut shut) (hsame.destroys.trans destroys) (by rwa [hsame.handler])
  | closed log shut destroys handler =>
    exact .closed log (hshut shut) (hsame.destroys.trans destroys) (hsame.handler.trans handler)
  | destroyed log shut channels destroys handler =>
    exact .destroyed log (hshut shut) (hchannels.trans channels) (hsame.destroys.trans destroys)
      (hsame.handler.trans handler)

/--
A handler that neither opens nor closes the connection leaves it where it is.
-/
theorem Stage.of_quiet {bind : Functor → ClientTask} (h : Stage i x v) (hmade : x.log ≠ [])
    (hquiet : Quiet bind x.conn l x'.conn l' notices) (hlog : x'.log = x.log)
    (hepoll : v.epoll = l.poller.epoll x.conn.channel.fd)
    (hchannels : v.channels = l.poller.channels x.conn.channel.fd)
    (hepoll' : v'.epoll = l'.poller.epoll x.conn.channel.fd)
    (hchannels' : v'.channels = l'.poller.channels x.conn.channel.fd) (hsame : View.Same v v') : Stage i x' v' := by
  have hshut : Shut x v → Shut x' v' ∧ v'.channels = v.channels := by
    intro hshut
    obtain ⟨hchannel, hpoller⟩ :=
      hquiet.closed hshut.state_ (TcpConnection.Life.not_isWriting_of_none hshut.events)
    refine ⟨hshut.same hsame hquiet.state_ hchannel ?_, ?_⟩
    . rw [hepoll', hepoll, hpoller]
    . rw [hchannels', hchannels, hpoller]
  cases h with
  | made log => exact absurd log hmade
  | up log state_ synced registered destroys handler =>
    refine .up (hlog.trans log) ?_ ?_ (hquiet.channel.registered registered) (hsame.destroys.trans destroys)
      (hsame.handler.trans handler)
    . rw [hquiet.state_]
      exact state_
    . rw [hepoll] at synced
      have hsynced := hquiet.channel.synced synced
      unfold Channel.Synced at hsynced
      rw [hquiet.channel.fd] at hsynced
      rw [hepoll']
      exact hsynced
  | closing log shut destroys handler =>
    exact .closing (hlog.trans log) (hshut shut).1 (hsame.destroys.trans destroys) (by rwa [hsame.handler])
  | closed log shut destroys handler =>
    exact .closed (hlog.trans log) (hshut shut).1 (hsame.destroys.trans destroys) (hsame.handler.trans handler)
  | destroyed log shut channels destroys handler =>
    obtain ⟨hshut', hsameChannels⟩ := hshut shut
    exact .destroyed (hlog.trans log) hshut' (hsameChannels.trans channels) (hsame.destroys.trans destroys)
      (hsame.handler.trans handler)

-- a call that at most lets an open connection begin to disconnect
theorem Stage.of_call (h : Stage i x v) (hlog : x'.log = x.log) (hchannel : x'.conn.channel = x.conn.channel)
    (hup : x.conn.state_ = .kConnected ∨ x.conn.state_ = .kDisconnecting →
      x'.conn.state_ = .kConnected ∨ x'.conn.state_ = .kDisconnecting)
    (hstate : ¬(x.conn.state_ = .kConnected ∨ x.conn.state_ = .kDisconnecting) → x'.conn.state_ = x.conn.state_)
    : Stage i x' v := by
  have hshut : Shut x v → Shut x' v := by
    intro hshut
    refine hshut.same (.refl v) (hstate ?_) hchannel rfl
    simp [hshut.state_]
  cases h with
  | made log state_ index events epoll destroys todo handler =>
    refine .made (hlog.trans log) ?_ ?_ ?_ epoll destroys todo handler
    . rw [hstate (by simp [state_]), state_]
    . rw [hchannel]
      exact index
    . rw [hchannel]
      exact events
  | up log state_ synced registered destroys handler =>
    refine .up (hlog.trans log) (hup state_) ?_ ?_ destroys handler
    . rw [hchannel]
      exact synced
    . rw [hchannel]
      exact registered
  | closing log shut destroys handler => exact .closing (hlog.trans log) (hshut shut) destroys handler
  | closed log shut destroys handler => exact .closed (hlog.trans log) (hshut shut) destroys handler
  | destroyed log shut channels destroys handler =>
    exact .destroyed (hlog.trans log) (hshut shut) channels destroys handler

-- a callback that closes the connection
theorem Stage.up_of_todo (h : Stage i x v) (htodo : .close ∈ v.todo ∨ .read ∈ v.todo)
    : x.conn.state_ = .kConnected ∨ x.conn.state_ = .kDisconnecting := by
  cases h with
  | made _ _ _ _ _ _ empty => simp [empty] at htodo
  | up _ state_ => exact state_
  | closing _ shut | closed _ shut | destroyed _ shut => simp [shut.close, shut.read] at htodo

theorem Stage.of_up (h : Stage i x v) (hup : x.conn.state_ = .kConnected ∨ x.conn.state_ = .kDisconnecting)
    : x.log = [.connectEstablished] ∧ (v.epoll.isSome ↔ x.conn.channel.index = .kAdded)
        ∧ x.conn.channel.Registered ∧ v.destroys = 0 ∧ v.handler = none := by
  cases h with
  | made _ state_ => simp [state_] at hup
  | up log _ synced registered destroys handler => exact ⟨log, synced, registered, destroys, handler⟩
  | closing _ shut | closed _ shut | destroyed _ shut => simp [shut.state_] at hup

-- epoll reports the channel only while the connection is open
theorem Stage.up_of_epoll (h : Stage i x v) (hepoll : v.epoll.isSome = true)
    : x.log = [.connectEstablished] ∧ (x.conn.state_ = .kConnected ∨ x.conn.state_ = .kDisconnecting)
        ∧ x.conn.channel.Registered ∧ v.destroys = 0 ∧ v.handler = none := by
  cases h with
  | made _ _ _ _ epoll => simp [epoll] at hepoll
  | up log state_ _ registered destroys handler => exact ⟨log, state_, registered, destroys, handler⟩
  | closing _ shut | closed _ shut | destroyed _ shut => simp [shut.epoll] at hepoll

theorem Stage.handleClose (h : Stage i x v) (hup : x.conn.state_ = .kConnected ∨ x.conn.state_ = .kDisconnecting)
    (hepoll : v.epoll = l.poller.epoll x.conn.channel.fd)
    (hclose : x.conn.handleClose l = some (x'.conn, l', notices)) (hlog : x'.log = x.log ++ [.handleClose])
    (hepoll' : v'.epoll = l'.poller.epoll x.conn.channel.fd) (hdestroys : v'.destroys = v.destroys)
    (htodo : .close ∉ v'.todo ∧ .read ∉ v'.todo) (hhandler : v'.handler = some (.closeCallback i))
    : Stage i x' v' := by
  obtain ⟨hup', hsynced, hregistered, hnone, _⟩ := h.of_up hup
  rw [hepoll] at hsynced
  obtain ⟨c, l₁, heq, hstate, hsynced', hevents, hfd, _, habsent, _⟩ :=
    TcpConnection.handleClose_of_registered hsynced hregistered.1
  rw [hclose, Option.some.injEq, Prod.mk.injEq, Prod.mk.injEq] at heq
  obtain ⟨rfl, rfl, rfl⟩ := heq
  have hindex : x'.conn.channel.index ≠ .kAdded := by
    intro hadded
    have hisSome := hsynced'.mpr hadded
    rw [hfd, habsent] at hisSome
    cases hisSome
  refine .closing ?_ ⟨hstate, hevents, hepoll'.trans habsent, hindex, htodo.1, htodo.2⟩ (hdestroys.trans hnone)
    (.inl hhandler)
  rw [hlog, hup']
  rfl

theorem Stage.connectDestroyed (h : Stage i x v) (hwaits : 0 < v.destroys)
    (hepoll : v.epoll = l.poller.epoll x.conn.channel.fd)
    (hdestroy : x.conn.connectDestroyed l = some (x'.conn, l', notices)) (hlog : x'.log = x.log ++ [.connectDestroyed])
    (hepoll' : v'.epoll = l'.poller.epoll x.conn.channel.fd)
    (hchannels' : v'.channels = l'.poller.channels x.conn.channel.fd)
    (hdestroys : v'.destroys + 1 = v.destroys) (htodo : ∀ callback ∈ v'.todo, callback ∈ v.todo)
    (hhandler : v'.handler = v.handler) : Stage i x' v' ∧ notices = [] := by
  cases h with
  | made _ _ _ _ _ destroys | up _ _ _ _ destroys | closing _ _ destroys | destroyed _ _ _ destroys => omega
  | closed log shut destroys handler =>
    have hsynced : x.conn.channel.Synced l.poller := by
      unfold Channel.Synced
      rw [← hepoll, shut.epoll]
      simp [shut.index]
    have hnot : x.conn.state_ ≠ .kConnected := by
      simp [shut.state_]
    obtain ⟨c, l₁, heq, hstate, hevents, hindex, _, _, hchannels, habsent, _⟩ :=
      TcpConnection.connectDestroyed_spec hsynced (fun hup => absurd hup hnot)
    rw [if_neg hnot] at heq hstate hevents
    rw [hdestroy, Option.some.injEq, Prod.mk.injEq, Prod.mk.injEq] at heq
    obtain ⟨rfl, rfl, rfl⟩ := heq
    refine ⟨.destroyed ?_ ⟨hstate.trans shut.state_, hevents.trans shut.events, hepoll'.trans habsent, ?_,
      fun hmem => shut.close (htodo _ hmem), fun hmem => shut.read (htodo _ hmem)⟩ (hchannels'.trans hchannels)
      (by omega) (hhandler.trans handler), rfl⟩
    . rw [hlog, log]
      rfl
    . simp [hindex]

theorem Stage.connectEstablished (h : Stage i x v) (hmade : v.handler = some (.connectEstablished i))
    (hepoll : v.epoll = l.poller.epoll x.conn.channel.fd)
    (hestablish : x.conn.connectEstablished l = some (x'.conn, l')) (hlog : x'.log = x.log ++ [.connectEstablished])
    (hepoll' : v'.epoll = l'.poller.epoll x.conn.channel.fd) (hdestroys : v'.destroys = v.destroys)
    (hhandler : v'.handler = none) : Stage i x' v' := by
  cases h with
  | made log state_ index events epoll destroys todo handler =>
    obtain ⟨c, l₁, heq, hstate, hsynced, hregistered, hfd, _⟩ :=
      TcpConnection.connectEstablished_spec index events (hepoll.symm.trans epoll)
    rw [hestablish, Option.some.injEq, Prod.mk.injEq] at heq
    obtain ⟨rfl, rfl⟩ := heq
    refine .up ?_ (.inl hstate) ?_ hregistered (hdestroys.trans destroys) hhandler
    . rw [hlog, log]
      rfl
    . unfold Channel.Synced at hsynced
      rw [hfd] at hsynced
      rw [hepoll']
      exact hsynced
  | up _ _ _ _ _ handler | closed _ _ _ handler | destroyed _ _ _ _ handler => simp [handler] at hmade
  | closing _ _ _ handler => simp [hmade] at handler

end TcpClient

end MyMuduo
