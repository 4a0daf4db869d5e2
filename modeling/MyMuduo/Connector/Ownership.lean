import MyMuduo.Connector.Basic
import MyMuduo.Transition.Basic

/-!
This module contains who owns the sockets that a connector makes: the attempt in flight, whose channel
is the only one that is registered, or the one call that has closed the socket or handed it over.
-/

namespace MyMuduo

namespace EPollPoller

-- the poller's map or the interest set refers to the channel object at `addr`
def Registered (p : EPollPoller) (fd : Fd) (addr : Addr) : Prop :=
  p.channels fd = some addr ∨ ∃ events, p.epoll fd = some (events, addr)

def only (c : Channel) : EPollPoller where
  channels := Function.update (fun _ => none) c.fd (some c.addr)
  epoll := Function.update (fun _ => none) c.fd (some (c.events, c.addr))
  failed := []

def without (p : EPollPoller) (fd : Fd) : EPollPoller where
  channels := Function.update p.channels fd none
  epoll := Function.update p.epoll fd none
  failed := p.failed

theorem not_registered_empty (fd : Fd) (addr : Addr) : ¬empty.Registered fd addr := by
  simp [Registered, empty]

theorem not_registered_without (p : EPollPoller) (fd : Fd) (addr : Addr)
    : ¬(p.without fd).Registered fd addr := by
  simp [Registered, without]

theorem registered_only {c : Channel} {fd : Fd} {addr : Addr}
    : (only c).Registered fd addr ↔ fd = c.fd ∧ addr = c.addr := by
  unfold Registered only
  by_cases heq : fd = c.fd
  . subst heq
    simp [eq_comm]
  . simp [heq]

theorem only_without (c : Channel) : (only c).without c.fd = empty := by
  unfold without only empty
  simp only [Function.update_idem, EPollPoller.mk.injEq]
  refine ⟨?_, ?_, trivial⟩
  . apply Function.update_eq_self_iff.mpr
    rfl
  . apply Function.update_eq_self_iff.mpr
    rfl

end EPollPoller

namespace Connector

def disposals (s : Connector) (fd : Fd) : Nat :=
  s.closed.count fd + s.handed.count fd

-- no socket is in flight
structure Idle (s : Connector) : Prop where
  state : s.state_ ≠ .kConnecting
  poller : s.poller = .empty
  disposed : ∀ fd, s.disposals fd = if fd < s.sockets then 1 else 0

-- the call that is running holds `sockfd`
structure Holding (s : Connector) (sockfd : Fd) : Prop where
  made : sockfd < s.sockets
  poller : s.poller = .empty
  disposed : ∀ fd, s.disposals fd = if fd < s.sockets ∧ fd ≠ sockfd then 1 else 0

-- `channel_` holds a socket and is all that the poller knows
structure Attempt (s : Connector) (c : Channel) : Prop where
  channel : s.channel_ = some c
  index : c.index = .kAdded
  poller : s.poller = .only c
  made : c.fd < s.sockets
  disposed : ∀ fd, s.disposals fd = if fd < s.sockets ∧ fd ≠ c.fd then 1 else 0

structure InFlight (s : Connector) (c : Channel) : Prop extends s.Attempt c where
  state : s.state_ = .kConnecting

def Accounted (s : Connector) : Prop :=
  s.Idle ∨ ∃ c, s.InFlight c

/-
The places where a held socket goes: every one disposes of it and of no other.
-/

theorem Holding.idle {s s' : Connector} {sockfd : Fd} (h : s.Holding sockfd)
    (hstate : s'.state_ ≠ .kConnecting) (hpoller : s'.poller = s.poller) (hsockets : s'.sockets = s.sockets)
    (hdisposals : ∀ fd, s'.disposals fd = s.disposals fd + if fd = sockfd then 1 else 0) : s'.Idle := by
  refine ⟨hstate, hpoller.trans h.poller, ?_⟩
  intro fd
  rw [hdisposals, h.disposed, hsockets]
  by_cases heq : fd = sockfd
  . subst heq
    simp [h.made]
  . simp [heq]

theorem count_append_singleton (fds : List Fd) (sockfd fd : Fd)
    : (fds ++ [sockfd]).count fd = fds.count fd + if fd = sockfd then 1 else 0 := by
  rw [List.count_append, List.count_singleton]
  simp only [beq_iff_eq, eq_comm (a := sockfd)]

theorem disposals_close (s : Connector) (sockfd fd : Fd)
    : (s.close sockfd).disposals fd = s.disposals fd + if fd = sockfd then 1 else 0 := by
  simp only [disposals, close, count_append_singleton]
  omega

theorem Holding.close {s : Connector} {sockfd : Fd} (h : s.Holding sockfd)
    (hstate : s.state_ ≠ .kConnecting) : (s.close sockfd).Idle :=
  h.idle hstate rfl rfl (s.disposals_close sockfd)

theorem Holding.hand {s : Connector} {sockfd : Fd} (h : s.Holding sockfd)
    (hstate : s.state_ ≠ .kConnecting) : { s with handed := s.handed ++ [sockfd] }.Idle := by
  apply h.idle
  . exact hstate
  . rfl
  . rfl
  . intro fd
    simp only [disposals, count_append_singleton]
    omega

theorem state_retry (s : Connector) (sockfd : Fd) : (s.retry sockfd).state_ = .kDisconnected := by
  unfold retry
  dsimp only
  split <;> rfl

theorem poller_retry (s : Connector) (sockfd : Fd) : (s.retry sockfd).poller = s.poller := by
  unfold retry
  dsimp only
  split <;> rfl

theorem disposals_retry (s : Connector) (sockfd fd : Fd)
    : (s.retry sockfd).disposals fd = s.disposals fd + if fd = sockfd then 1 else 0 := by
  rw [← disposals_close]
  unfold retry
  dsimp only
  split <;> rfl

theorem Holding.retry {s : Connector} {sockfd : Fd} (h : s.Holding sockfd) : (s.retry sockfd).Idle := by
  apply h.idle
  . simp [state_retry]
  . apply poller_retry
  . unfold Connector.retry
    dsimp only
    split <;> rfl
  . apply disposals_retry

-- the channel that `connecting` makes, as it is once it is registered
def connectingChannel (sockfd : Fd) : Channel :=
  { Channel.new sockfd sockfd [.write, .error] with events := Channel.kWriteEvent, index := .kAdded }

theorem connecting_eq_some {s : Connector} {sockfd : Fd} (h : (s.poller.epoll sockfd).isSome = false)
    : s.connecting sockfd =
        some
          { s with
              state_ := .kConnecting
              channel_ := some (connectingChannel sockfd)
              poller :=
                { s.poller with
                  channels := Function.update s.poller.channels sockfd (some sockfd)
                  epoll :=
                    Function.update s.poller.epoll sockfd (some (Channel.kWriteEvent, sockfd)) } } := by
  have hon := EPollPoller.updateChannel_kNew (p := s.poller)
    (c := { Channel.new sockfd sockfd [.write, .error] with events := Channel.kWriteEvent }) rfl h
  have hevents : (0 : Events) ||| Channel.kWriteEvent = Channel.kWriteEvent := by
    decide
  simp only [connecting, Channel.enableWriting, setState, Channel.new, hevents] at hon ⊢
  rw [hon]
  rfl

theorem Holding.connecting {s : Connector} {sockfd : Fd} (h : s.Holding sockfd)
    : ∃ s', s.connecting sockfd = some s' ∧ s'.InFlight (connectingChannel sockfd) := by
  have habsent : (s.poller.epoll sockfd).isSome = false := by
    rw [h.poller]
    rfl
  refine ⟨_, connecting_eq_some habsent, ⟨rfl, rfl, ?_, h.made, h.disposed⟩, rfl⟩
  simp only [h.poller]
  rfl

/-
Where a call comes to hold a socket.
-/

theorem Idle.holding {s : Connector} (h : s.Idle)
    : { s with sockets := s.sockets + 1 }.Holding s.sockets := by
  refine ⟨Nat.lt_succ_self _, h.poller, ?_⟩
  intro fd
  have hmade : fd < s.sockets ↔ fd < s.sockets + 1 ∧ fd ≠ s.sockets := by
    rw [Nat.lt_succ_iff, Nat.lt_iff_le_and_ne]
  exact (h.disposed fd).trans (if_congr hmade rfl rfl)

theorem removeAndResetChannel_eq_some {s : Connector} {c : Channel} (hchannel : s.channel_ = some c)
    (hindex : c.index = .kAdded) (hepoll : (s.poller.epoll c.fd).isSome = true)
    : s.removeAndResetChannel =
        some
          ({ s with
              channel_ := some { c with events := Channel.kNoneEvent, index := .kNew }
              poller := s.poller.without c.fd
              resets := s.resets + 1 },
            c.fd) := by
  have hoff : c.disableAll s.poller =
      some (s.poller.deleted c, { c with events := Channel.kNoneEvent, index := .kDelete }) := by
    unfold Channel.disableAll
    rw [EPollPoller.updateChannel_kAdded (c := { c with events := Channel.kNoneEvent }) hindex hepoll]
    rfl
  simp [removeAndResetChannel, hchannel, hoff, Channel.remove, EPollPoller.removeChannel,
    EPollPoller.deleted, EPollPoller.without]

theorem Attempt.removeAndResetChannel {s : Connector} {c : Channel} (h : s.Attempt c)
    : ∃ s', s.removeAndResetChannel = some (s', c.fd) ∧ s'.Holding c.fd ∧ s'.state_ = s.state_ := by
  have hepoll : (s.poller.epoll c.fd).isSome = true := by
    simp [h.poller, EPollPoller.only]
  refine ⟨_, removeAndResetChannel_eq_some h.channel h.index hepoll, ⟨h.made, ?_, h.disposed⟩, rfl⟩
  simp only [h.poller]
  apply EPollPoller.only_without

end Connector

end MyMuduo
