import Mathlib.Logic.Function.Basic

/-!
This module contains channels and the epoll poller: the event mask of a channel, the poller's record
of channels, the kernel's interest set behind `epoll_ctl`, and the dispatch of a reported event.
-/

namespace MyMuduo

abbrev Fd := Nat

abbrev Addr := Nat

abbrev Events := BitVec 32

def EPOLLIN : Events := 0x001
def EPOLLPRI : Events := 0x002
def EPOLLOUT : Events := 0x004
def EPOLLERR : Events := 0x008
def EPOLLHUP : Events := 0x010

/--
`Channel::index_`: what the poller knows of a channel.
-/
inductive Index where
  | kNew
  | kAdded
  | kDelete
  deriving DecidableEq, Repr

inductive Callback where
  | read
  | write
  | close
  | error
  deriving DecidableEq, Repr

/--
A channel object at the address `addr`. `callbacks` are those of its four callbacks that are set.
-/
structure Channel where
  addr : Addr
  fd : Fd
  events : Events
  revents : Events
  index : Index
  callbacks : List Callback
  deriving DecidableEq, Repr

/--
The poller's map from descriptors to channel objects, the kernel's interest set of `epollfd_`, for each
descriptor in it the mask and `data.ptr`, and the descriptors that `epoll_ctl` has failed to delete.
-/
structure EPollPoller where
  channels : Fd → Option Addr
  epoll : Fd → Option (Events × Addr)
  failed : List Fd

namespace Channel

def kNoneEvent : Events := 0
def kReadEvent : Events := EPOLLIN ||| EPOLLPRI
def kWriteEvent : Events := EPOLLOUT

def new (addr : Addr) (fd : Fd) (callbacks : List Callback) : Channel where
  addr := addr
  fd := fd
  events := 0
  revents := 0
  index := .kNew
  callbacks := callbacks

def isNoneEvent (c : Channel) : Bool :=
  c.events = kNoneEvent

def isWriting (c : Channel) : Bool :=
  c.events &&& kWriteEvent ≠ 0

def isReading (c : Channel) : Bool :=
  c.events &&& kReadEvent ≠ 0

/--
The callbacks that `handleEventWithGuard` runs, in order. No callback changes `revents_`, so they are
fixed when the dispatch begins.
-/
def handleEventWithGuard (c : Channel) : List Callback :=
  let run (test : Bool) (callback : Callback) : List Callback :=
    if test && c.callbacks.contains callback then [callback] else []
  run (c.revents &&& EPOLLHUP ≠ 0 && c.revents &&& EPOLLIN = 0) .close
    ++ run (c.revents &&& EPOLLERR ≠ 0) .error
    ++ run (c.revents &&& EPOLLIN ≠ 0) .read
    ++ run (c.revents &&& EPOLLOUT ≠ 0) .write

end Channel

namespace EPollPoller

inductive Operation where
  | add
  | mod
  | del
  deriving DecidableEq, Repr

def empty : EPollPoller where
  channels _ := none
  epoll _ := none
  failed := []

/--
The system call: it refuses to add a descriptor twice and to change or delete an absent one.
-/
def epollCtl (p : EPollPoller) (operation : Operation) (c : Channel) : Option EPollPoller :=
  match operation with
  | .add =>
    if (p.epoll c.fd).isSome then
      none
    else
      some { p with epoll := Function.update p.epoll c.fd (some (c.events, c.addr)) }
  | .mod =>
    if (p.epoll c.fd).isSome then
      some { p with epoll := Function.update p.epoll c.fd (some (c.events, c.addr)) }
    else
      none
  | .del =>
    if (p.epoll c.fd).isSome then
      some { p with epoll := Function.update p.epoll c.fd none }
    else
      none

-- `none`: `LOG_FATAL` has ended the process. A deletion that fails is only logged.
def update (p : EPollPoller) (operation : Operation) (c : Channel) : Option EPollPoller :=
  match p.epollCtl operation c with
  | some p => some p
  | none =>
    if operation = .del then
      some { p with failed := p.failed ++ [c.fd] }
    else
      none

def updateChannel (p : EPollPoller) (c : Channel) : Option (EPollPoller × Channel) :=
  if c.index = .kDelete ∨ c.index = .kNew then
    let p :=
      if c.index = .kNew then
        { p with channels := Function.update p.channels c.fd (some c.addr) }
      else
        p
    let c := { c with index := .kAdded }
    (p.update .add c).map fun p => (p, c)
  else
    if c.isNoneEvent then
      (p.update .del c).map fun p => (p, { c with index := .kDelete })
    else
      (p.update .mod c).map fun p => (p, c)

def removeChannel (p : EPollPoller) (c : Channel) : Option (EPollPoller × Channel) :=
  let p := { p with channels := Function.update p.channels c.fd none }
  if c.index = .kAdded then
    (p.update .del c).map fun p => (p, { c with index := .kNew })
  else
    some (p, { c with index := .kNew })

end EPollPoller

namespace Channel

def enableReading (c : Channel) (p : EPollPoller) : Option (EPollPoller × Channel) :=
  p.updateChannel { c with events := c.events ||| kReadEvent }

def disableReading (c : Channel) (p : EPollPoller) : Option (EPollPoller × Channel) :=
  p.updateChannel { c with events := c.events &&& ~~~kReadEvent }

def enableWriting (c : Channel) (p : EPollPoller) : Option (EPollPoller × Channel) :=
  p.updateChannel { c with events := c.events ||| kWriteEvent }

def disableWriting (c : Channel) (p : EPollPoller) : Option (EPollPoller × Channel) :=
  p.updateChannel { c with events := c.events &&& ~~~kWriteEvent }

def disableAll (c : Channel) (p : EPollPoller) : Option (EPollPoller × Channel) :=
  p.updateChannel { c with events := kNoneEvent }

def remove (c : Channel) (p : EPollPoller) : Option (EPollPoller × Channel) :=
  p.removeChannel c

/--
The descriptor is in the interest set exactly when the channel's index says so.
-/
def Synced (c : Channel) (p : EPollPoller) : Prop :=
  (p.epoll c.fd).isSome ↔ c.index = .kAdded

@[simp]
theorem isWriting_setEvents_or (c : Channel)
    : { c with events := c.events ||| kWriteEvent }.isWriting = true := by
  have h : (c.events ||| kWriteEvent) &&& kWriteEvent = kWriteEvent := by
    ext i
    simp only [BitVec.getElem_and, BitVec.getElem_or]
    cases kWriteEvent[i] <;> simp
  simp only [isWriting, h]
  decide

@[simp]
theorem isWriting_setEvents_and_not (c : Channel)
    : { c with events := c.events &&& ~~~kWriteEvent }.isWriting = false := by
  have h : c.events &&& ~~~kWriteEvent &&& kWriteEvent = 0 := by
    ext i
    simp
  simp [isWriting, h]

theorem isWriting_congr {c c' : Channel} (h : c'.events = c.events) : c'.isWriting = c.isWriting := by
  simp [isWriting, h]

end Channel

/--
What `updateChannel` and `removeChannel` leave alone: the channel's identity and every other
descriptor.
-/
structure EPollPoller.Frame (p p' : EPollPoller) (c c' : Channel) : Prop where
  addr : c'.addr = c.addr
  fd : c'.fd = c.fd
  events : c'.events = c.events
  callbacks : c'.callbacks = c.callbacks
  epoll : ∀ fd, fd ≠ c.fd → p'.epoll fd = p.epoll fd
  channels : ∀ fd, fd ≠ c.fd → p'.channels fd = p.channels fd

namespace EPollPoller

-- `EPOLL_CTL_ADD`, `EPOLL_CTL_MOD` and `EPOLL_CTL_DEL` when they succeed
def added (p : EPollPoller) (c : Channel) : EPollPoller :=
  { p with epoll := Function.update p.epoll c.fd (some (c.events, c.addr)) }

def deleted (p : EPollPoller) (c : Channel) : EPollPoller :=
  { p with epoll := Function.update p.epoll c.fd none }

theorem updateChannel_kNew {p : EPollPoller} {c : Channel} (hindex : c.index = .kNew)
    (h : (p.epoll c.fd).isSome = false)
    : p.updateChannel c =
        some (added { p with channels := Function.update p.channels c.fd (some c.addr) } c,
          { c with index := .kAdded }) := by
  simp [updateChannel, update, epollCtl, added, hindex, h]

theorem updateChannel_kDelete {p : EPollPoller} {c : Channel} (hindex : c.index = .kDelete)
    (h : (p.epoll c.fd).isSome = false)
    : p.updateChannel c = some (p.added c, { c with index := .kAdded }) := by
  simp [updateChannel, update, epollCtl, added, hindex, h]

theorem updateChannel_kAdded {p : EPollPoller} {c : Channel} (hindex : c.index = .kAdded)
    (h : (p.epoll c.fd).isSome = true)
    : p.updateChannel c =
        if c.isNoneEvent then
          some (p.deleted c, { c with index := .kDelete })
        else
          some (p.added c, c) := by
  simp [updateChannel, update, epollCtl, added, deleted, hindex, h]

/--
On a channel whose index matches the kernel no branch of `updateChannel` makes `epoll_ctl` fail.
-/
theorem updateChannel_of_synced {p : EPollPoller} {c : Channel} (h : c.Synced p)
    : ∃ p' c', p.updateChannel c = some (p', c') ∧ c'.Synced p' ∧ Frame p p' c c' := by
  unfold Channel.Synced at h
  cases hindex : c.index with
  | kNew =>
    have habsent : (p.epoll c.fd).isSome = false := by
      simpa [hindex] using h
    refine ⟨_, _, updateChannel_kNew hindex habsent, ?_, ?_⟩
    . simp [Channel.Synced, added]
    . constructor <;> simp +contextual [added]
  | kDelete =>
    have habsent : (p.epoll c.fd).isSome = false := by
      simpa [hindex] using h
    refine ⟨_, _, updateChannel_kDelete hindex habsent, ?_, ?_⟩
    . simp [Channel.Synced, added]
    . constructor <;> simp +contextual [added]
  | kAdded =>
    rw [updateChannel_kAdded hindex (h.mpr hindex)]
    split
    . refine ⟨_, _, rfl, ?_, ?_⟩
      . simp [Channel.Synced, deleted]
      . constructor <;> simp +contextual [deleted]
    . refine ⟨_, _, rfl, ?_, ?_⟩
      . simp [Channel.Synced, added, hindex]
      . constructor <;> simp +contextual [added]

end EPollPoller

namespace Channel

theorem enableWriting_of_synced {c : Channel} {p : EPollPoller} (h : c.Synced p)
    : ∃ p' c', c.enableWriting p = some (p', c') ∧ c'.Synced p' ∧ c'.isWriting = true := by
  have h' : { c with events := c.events ||| kWriteEvent }.Synced p := h
  obtain ⟨p', c', heq, hsynced, hframe⟩ := EPollPoller.updateChannel_of_synced h'
  refine ⟨p', c', heq, hsynced, ?_⟩
  rw [isWriting_congr hframe.events]
  apply isWriting_setEvents_or

theorem disableWriting_of_synced {c : Channel} {p : EPollPoller} (h : c.Synced p)
    : ∃ p' c', c.disableWriting p = some (p', c') ∧ c'.Synced p' ∧ c'.isWriting = false := by
  have h' : { c with events := c.events &&& ~~~kWriteEvent }.Synced p := h
  obtain ⟨p', c', heq, hsynced, hframe⟩ := EPollPoller.updateChannel_of_synced h'
  refine ⟨p', c', heq, hsynced, ?_⟩
  rw [isWriting_congr hframe.events]
  apply isWriting_setEvents_and_not

end Channel

end MyMuduo
