import MyMuduo.Poller.Basic
import MyMuduo.Transition.Basic

/-!
This module contains any number of channels on one poller, whose descriptors may be used again: the index of
each channel, the poller's map and the kernel's interest set agree in every run.
-/

namespace MyMuduo

namespace EPollPoller

/--
The three records of one channel agree.
-/
structure Reflects (p : EPollPoller) (c : Channel) : Prop where
  kNew : c.index = .kNew → p.channels c.fd = none ∧ p.epoll c.fd = none
  kAdded : c.index = .kAdded → p.channels c.fd = some c.addr ∧ p.epoll c.fd = some (c.events, c.addr)
  kDelete : c.index = .kDelete → p.channels c.fd = some c.addr ∧ p.epoll c.fd = none

variable {p : EPollPoller} {c : Channel}

-- `c` has its new events, and `events` are those that the kernel knows
theorem updateChannel_of_reflects {events : Events} (h : p.Reflects { c with events := events })
    : ∃ p' c', p.updateChannel c = some (p', c') ∧ p'.Reflects c' ∧ Frame p p' c c' ∧ c'.index ≠ .kNew
        ∧ p'.failed = p.failed := by
  cases hindex : c.index with
  | kNew =>
    have habsent : (p.epoll c.fd).isSome = false := by
      simp [(h.kNew hindex).2]
    refine ⟨_, _, updateChannel_kNew hindex habsent, ?_, ?_, by simp, rfl⟩
    . constructor <;> simp [added]
    . constructor <;> simp +contextual [added]
  | kDelete =>
    have habsent : (p.epoll c.fd).isSome = false := by
      simp [(h.kDelete hindex).2]
    refine ⟨_, _, updateChannel_kDelete hindex habsent, ?_, ?_, by simp, rfl⟩
    . constructor <;> simp [added, (h.kDelete hindex).1]
    . constructor <;> simp +contextual [added]
  | kAdded =>
    have hpresent : (p.epoll c.fd).isSome = true := by
      simp [(h.kAdded hindex).2]
    rw [updateChannel_kAdded hindex hpresent]
    split
    . refine ⟨_, _, rfl, ?_, ?_, by simp, rfl⟩
      . constructor <;> simp [deleted, (h.kAdded hindex).1]
      . constructor <;> simp +contextual [deleted]
    . refine ⟨_, _, rfl, ?_, ?_, by simp [hindex], rfl⟩
      . constructor <;> simp [added, hindex, (h.kAdded hindex).1]
      . constructor <;> simp +contextual [added]

theorem removeChannel_of_reflects (h : p.Reflects c)
    : ∃ p', p.removeChannel c = some (p', { c with index := .kNew }) ∧ p'.Reflects { c with index := .kNew }
        ∧ Frame p p' c { c with index := .kNew }
        ∧ p'.failed = p.failed := by
  unfold removeChannel
  dsimp only
  split
  . next hindex =>
    have hpresent : (p.epoll c.fd).isSome = true := by
      simp [(h.kAdded hindex).2]
    simp only [update, epollCtl, hpresent, if_true, Option.map_some]
    refine ⟨_, rfl, ?_, ?_, rfl⟩
    . constructor <;> simp
    . constructor <;> simp +contextual
  . next hindex =>
    have habsent : p.epoll c.fd = none := by
      cases hnew : c.index with
      | kNew => exact (h.kNew hnew).2
      | kAdded => exact absurd hnew hindex
      | kDelete => exact (h.kDelete hnew).2
    refine ⟨_, rfl, ?_, ?_, rfl⟩
    . constructor <;> simp [habsent]
    . constructor <;> simp +contextual

end EPollPoller

/--
The channel objects of a loop, by their addresses, and its poller.
-/
structure ChannelTable where
  poller : EPollPoller
  channels : Addr → Option Channel

namespace ChannelTable

/--
`new` is the constructor, at an address that is free or that of a channel that has been removed.
-/
inductive Label where
  | new (addr : Addr) (fd : Fd) (callbacks : List Callback)
  | enableReading (addr : Addr)
  | disableReading (addr : Addr)
  | enableWriting (addr : Addr)
  | disableWriting (addr : Addr)
  | disableAll (addr : Addr)
  | remove (addr : Addr)
  deriving DecidableEq, Repr

def Label.addr : Label → Addr
  | new addr _ _ | enableReading addr | disableReading addr | enableWriting addr | disableWriting addr
  | disableAll addr | remove addr => addr

def call (s : ChannelTable) (addr : Addr) (f : Channel → EPollPoller → Option (EPollPoller × Channel))
    : Option ChannelTable :=
  (s.channels addr).bind fun c =>
    (f c s.poller).map fun (poller, c) =>
      { poller := poller, channels := Function.update s.channels addr (some c) }

def enabled (s : ChannelTable) : Label → Bool
  | .new addr _ _ => (s.channels addr).all (·.index = .kNew)
  | a => (s.channels a.addr).isSome

-- `none`: `LOG_FATAL` has ended the process
def next (s : ChannelTable) : Label → Option ChannelTable
  | .new addr fd callbacks =>
    some { s with channels := Function.update s.channels addr (some (Channel.new addr fd callbacks)) }
  | .enableReading addr => s.call addr Channel.enableReading
  | .disableReading addr => s.call addr Channel.disableReading
  | .enableWriting addr => s.call addr Channel.enableWriting
  | .disableWriting addr => s.call addr Channel.disableWriting
  | .disableAll addr => s.call addr Channel.disableAll
  | .remove addr => s.call addr Channel.remove

def system : LTS ChannelTable Label :=
  .guarded (fun s => s = { poller := .empty, channels := fun _ => none }) enabled next

-- the events with which `updateChannel` is called
def Label.events (events : Events) : Label → Option Events
  | enableReading _ => some (events ||| Channel.kReadEvent)
  | disableReading _ => some (events &&& ~~~Channel.kReadEvent)
  | enableWriting _ => some (events ||| Channel.kWriteEvent)
  | disableWriting _ => some (events &&& ~~~Channel.kWriteEvent)
  | disableAll _ => some Channel.kNoneEvent
  | new .. | remove _ => none

def Unused (s : ChannelTable) (fd : Fd) : Prop :=
  ∀ addr c, s.channels addr = some c → c.fd = fd → c.index = .kNew

-- at most one channel for each descriptor is known to the poller
def OnePerFd (s : ChannelTable) : Prop :=
  ∀ addr other c d, s.channels addr = some c → s.channels other = some d → c.fd = d.fd → c.index ≠ .kNew →
    d.index ≠ .kNew → addr = other

/--
What the callers see to: a channel whose index is `KNew` is neither updated nor removed while another channel
is known to the poller under the same descriptor.
-/
def CallersObey (s : ChannelTable) : Label → Prop
  | .new .. => True
  | a => ∀ c, s.channels a.addr = some c → c.index = .kNew → s.Unused c.fd

/--
The poller's map and the interest set are those that the channels' indices and masks tell.
-/
structure Matches (s : ChannelTable) : Prop where
  channels : ∀ addr c, s.channels addr = some c →
    (s.poller.channels c.fd = some addr ↔ c.index = .kAdded ∨ c.index = .kDelete)
  epoll : ∀ addr c, s.channels addr = some c →
    (s.poller.epoll c.fd = some (c.events, addr) ↔ c.index = .kAdded)
  absent : ∀ addr c, s.channels addr = some c → c.index = .kDelete → s.poller.epoll c.fd = none
  present : ∀ fd, (s.poller.epoll fd).isSome = true → ∃ addr c, s.channels addr = some c ∧ c.fd = fd
    ∧ c.index = .kAdded

/--
The other channels and their entries are as they were.
-/
structure OthersKept (s s' : ChannelTable) (addr : Addr) : Prop where
  channels : ∀ other, other ≠ addr → s'.channels other = s.channels other
  map : ∀ other c, other ≠ addr → s.channels other = some c →
    (s'.poller.channels c.fd = some other ↔ s.poller.channels c.fd = some other)
  epoll : ∀ other c events, other ≠ addr → s.channels other = some c →
    (s'.poller.epoll c.fd = some (events, other) ↔ s.poller.epoll c.fd = some (events, other))

structure Inv (s : ChannelTable) : Prop where
  addr : ∀ addr c, s.channels addr = some c → c.addr = addr
  one : s.OnePerFd
  used : ∀ addr c, s.channels addr = some c → c.index ≠ .kNew → s.poller.Reflects c
  unused : ∀ fd, s.Unused fd → s.poller.channels fd = none ∧ s.poller.epoll fd = none

variable {s s' : ChannelTable} {a : Label} {addr : Addr} {c c' : Channel} {p' : EPollPoller}

-- the rest of the table while one channel is at work
def OthersNew (s : ChannelTable) (addr : Addr) (fd : Fd) : Prop :=
  ∀ other d, other ≠ addr → s.channels other = some d → d.fd = fd → d.index = .kNew

theorem Inv.othersNew (h : s.Inv) (hc : s.channels addr = some c) (hnew : c.index = .kNew → s.Unused c.fd)
    : s.OthersNew addr c.fd := by
  intro other d hne hd hfd
  by_cases hindex : c.index = .kNew
  . exact hnew hindex other d hd hfd
  . by_contra hother
    exact hne (h.one other addr d c hd hc hfd hother hindex)

theorem Inv.reflects (h : s.Inv) (hc : s.channels addr = some c) (hnew : c.index = .kNew → s.Unused c.fd)
    : s.poller.Reflects c := by
  by_cases hindex : c.index = .kNew
  . have hunused := h.unused c.fd (hnew hindex)
    constructor
    . exact fun _ => hunused
    . simp [hindex]
    . simp [hindex]
  . exact h.used addr c hc hindex

theorem reflects_congr {p : EPollPoller} {d : Channel} (h : p.Reflects d)
    (hchannels : p'.channels d.fd = p.channels d.fd) (hepoll : p'.epoll d.fd = p.epoll d.fd) : p'.Reflects d := by
  constructor
  . rw [hchannels, hepoll]
    exact h.kNew
  . rw [hchannels, hepoll]
    exact h.kAdded
  . rw [hchannels, hepoll]
    exact h.kDelete

theorem update_cases {channels : Addr → Option Channel} {other : Addr} {d : Channel}
    (h : Function.update channels addr (some c') other = some d)
    : (other = addr ∧ d = c') ∨ (other ≠ addr ∧ channels other = some d) := by
  by_cases heq : other = addr
  . subst heq
    rw [Function.update_self, Option.some.injEq] at h
    exact .inl ⟨rfl, h.symm⟩
  . rw [Function.update_of_ne heq] at h
    exact .inr ⟨heq, h⟩

/--
A call that brings the records of its channel into agreement, and leaves the other descriptors alone.
-/
theorem Inv.set {events : Events} (h : s.Inv) (hc : s.channels addr = some c) (hothers : s.OthersNew addr c.fd)
    (hreflects : p'.Reflects c') (hframe : EPollPoller.Frame s.poller p' { c with events := events } c')
    : Inv { poller := p', channels := Function.update s.channels addr (some c') } := by
  have hfd : c'.fd = c.fd := hframe.fd
  have hfar : ∀ other d, other ≠ addr → s.channels other = some d → d.index ≠ .kNew → d.fd ≠ c.fd :=
    fun other d hne hd hindex hfd => hindex (hothers other d hne hd hfd)
  refine ⟨?_, ?_, ?_, ?_⟩
  . intro other d hd
    obtain ⟨rfl, rfl⟩ | ⟨_, hd⟩ := update_cases hd
    . exact hframe.addr.trans (h.addr _ c hc)
    . exact h.addr other d hd
  . intro other other' d d' hd hd' hfds hindex hindex'
    obtain ⟨rfl, rfl⟩ | ⟨hne, hkept⟩ := update_cases hd
    . obtain ⟨rfl, rfl⟩ | ⟨hne', hkept'⟩ := update_cases hd'
      . rfl
      . exact absurd (hfd ▸ hfds.symm) (hfar other' d' hne' hkept' hindex')
    . obtain ⟨rfl, rfl⟩ | ⟨_, hkept'⟩ := update_cases hd'
      . exact absurd (hfd ▸ hfds) (hfar other d hne hkept hindex)
      . exact h.one other other' d d' hkept hkept' hfds hindex hindex'
  . intro other d hd hindex
    obtain ⟨rfl, rfl⟩ | ⟨hne, hd⟩ := update_cases hd
    . exact hreflects
    . have hne := hfar other d hne hd hindex
      exact reflects_congr (h.used other d hd hindex) (hframe.channels d.fd hne) (hframe.epoll d.fd hne)
  . intro fd hunused
    by_cases heq : fd = c.fd
    . subst heq
      have hnew := hunused addr c' (Function.update_self ..) hfd
      rw [← hfd]
      exact hreflects.kNew hnew
    . dsimp only
      rw [hframe.channels fd heq, hframe.epoll fd heq]
      apply h.unused fd
      intro other d hd hdfd
      by_cases hother : other = addr
      . subst hother
        rw [hc, Option.some.injEq] at hd
        subst hd
        exact absurd hdfd.symm heq
      . exact hunused other d ((Function.update_of_ne hother ..).trans hd) hdfd

theorem Inv.not_registered (h : s.Inv) (hc : s.channels addr = some c) (hindex : c.index = .kNew)
    : s.poller.channels c.fd ≠ some addr ∧ ∀ events, s.poller.epoll c.fd ≠ some (events, addr) := by
  by_cases hunused : s.Unused c.fd
  . obtain ⟨hmap, hepoll⟩ := h.unused c.fd hunused
    simp [hmap, hepoll]
  . -- another channel has the descriptor
    simp only [Unused, not_forall] at hunused
    obtain ⟨other, d, hd, hfd, hused⟩ := hunused
    have haddr := h.addr other d hd
    have hreflects := h.used other d hd hused
    have hne : other ≠ addr := by
      rintro rfl
      rw [hc, Option.some.injEq] at hd
      exact hused (hd ▸ hindex)
    rw [← hfd]
    cases hindex' : d.index with
    | kNew => exact absurd hindex' hused
    | kAdded =>
      obtain ⟨hmap, hepoll⟩ := hreflects.kAdded hindex'
      simp [hmap, hepoll, haddr, hne]
    | kDelete =>
      obtain ⟨hmap, hepoll⟩ := hreflects.kDelete hindex'
      simp [hmap, hepoll, haddr, hne]

theorem Inv.matches (h : s.Inv) : s.Matches := by
  have hused : ∀ addr c, s.channels addr = some c → c.index ≠ .kNew → s.poller.channels c.fd = some addr := by
    intro addr c hc hindex
    have haddr := h.addr addr c hc
    have hreflects := h.used addr c hc hindex
    cases hindex' : c.index with
    | kNew => exact absurd hindex' hindex
    | kAdded => exact haddr ▸ (hreflects.kAdded hindex').1
    | kDelete => exact haddr ▸ (hreflects.kDelete hindex').1
  have habsent : ∀ addr c, s.channels addr = some c → c.index = .kDelete → s.poller.epoll c.fd = none := by
    intro addr c hc hindex
    exact ((h.used addr c hc (by simp [hindex])).kDelete hindex).2
  refine ⟨?_, ?_, habsent, ?_⟩
  . intro addr c hc
    cases hindex : c.index with
    | kNew => simp [(h.not_registered hc hindex).1]
    | kAdded => simp [hused addr c hc (by simp [hindex])]
    | kDelete => simp [hused addr c hc (by simp [hindex])]
  . intro addr c hc
    cases hindex : c.index with
    | kNew => simp [(h.not_registered hc hindex).2]
    | kAdded =>
      have hentry := ((h.used addr c hc (by simp [hindex])).kAdded hindex).2
      simp [hentry, h.addr addr c hc]
    | kDelete => simp [habsent addr c hc hindex]
  . intro fd hfd
    by_contra hno
    have hunused : s.Unused fd ∨ ∃ addr c, s.channels addr = some c ∧ c.fd = fd ∧ c.index = .kDelete := by
      by_cases hunused : s.Unused fd
      . exact .inl hunused
      . simp only [Unused, not_forall] at hunused
        obtain ⟨addr, c, hc, hcfd, hindex⟩ := hunused
        refine .inr ⟨addr, c, hc, hcfd, ?_⟩
        cases hindex' : c.index with
        | kNew => exact absurd hindex' hindex
        | kAdded => exact absurd ⟨addr, c, hc, hcfd, hindex'⟩ hno
        | kDelete => rfl
    cases hunused with
    | inl hunused => simp [(h.unused fd hunused).2] at hfd
    | inr hdelete =>
      obtain ⟨addr, c, hc, rfl, hindex⟩ := hdelete
      simp [habsent addr c hc hindex] at hfd

theorem Inv.othersKept {events : Events} (h : s.Inv) (hothers : s.OthersNew addr c.fd)
    (h' : Inv { poller := p', channels := Function.update s.channels addr (some c') })
    (hframe : EPollPoller.Frame s.poller p' { c with events := events } c')
    : OthersKept s { poller := p', channels := Function.update s.channels addr (some c') } addr := by
  have hkept : ∀ other, other ≠ addr → Function.update s.channels addr (some c') other = s.channels other :=
    fun other hne => Function.update_of_ne hne ..
  refine ⟨hkept, ?_, ?_⟩
  . intro other d hne hd
    by_cases hindex : d.index = .kNew
    . have hd' := (hkept other hne).trans hd
      exact iff_of_false (h'.not_registered hd' hindex).1 (h.not_registered hd hindex).1
    . have hfd : d.fd ≠ c.fd := fun hfd => hindex (hothers other d hne hd hfd)
      dsimp only
      rw [hframe.channels d.fd hfd]
  . intro other d events hne hd
    by_cases hindex : d.index = .kNew
    . have hd' := (hkept other hne).trans hd
      exact iff_of_false ((h'.not_registered hd' hindex).2 events) ((h.not_registered hd hindex).2 events)
    . have hfd : d.fd ≠ c.fd := fun hfd => hindex (hothers other d hne hd hfd)
      dsimp only
      rw [hframe.epoll d.fd hfd]

/--
What an operation does when the callers obey: it succeeds, and so does its call of `epoll_ctl`, a deletion
included; the records agree afterwards, and no other channel notices it.
-/
def Succeeds (s : ChannelTable) (a : Label) : Prop :=
  ∃ s', s.next a = some s' ∧ s'.Inv ∧ OthersKept s s' a.addr ∧ s'.poller.failed = s.poller.failed

-- `g` is what the operation `f` makes of the events
theorem Inv.update {f : Channel → EPollPoller → Option (EPollPoller × Channel)} {g : Events → Events}
    (h : s.Inv) (hnext : s.next a = s.call a.addr f)
    (hf : ∀ c p, f c p = p.updateChannel { c with events := g c.events })
    (hnew : ∀ c, s.channels a.addr = some c → c.index = .kNew → s.Unused c.fd)
    (henabled : (s.channels a.addr).isSome = true) : s.Succeeds a := by
  obtain ⟨c, hc⟩ := Option.isSome_iff_exists.mp henabled
  obtain ⟨p', c', hupdate, hreflects, hframe, _, hfailed⟩ := EPollPoller.updateChannel_of_reflects
    (c := { c with events := g c.events }) (h.reflects hc (hnew c hc))
  have hothers := h.othersNew hc (hnew c hc)
  have hinv := h.set hc hothers hreflects hframe
  refine ⟨_, ?_, hinv, h.othersKept hothers hinv hframe, hfailed⟩
  simp [hnext, call, hc, hf, hupdate]

theorem Inv.remove (h : s.Inv) (hnew : ∀ c, s.channels addr = some c → c.index = .kNew → s.Unused c.fd)
    (henabled : (s.channels addr).isSome = true) : s.Succeeds (.remove addr) := by
  obtain ⟨c, hc⟩ := Option.isSome_iff_exists.mp henabled
  obtain ⟨p', hremove, hreflects, hframe, hfailed⟩ :=
    EPollPoller.removeChannel_of_reflects (h.reflects hc (hnew c hc))
  have hothers := h.othersNew hc (hnew c hc)
  have hframe : EPollPoller.Frame s.poller p' { c with events := c.events } { c with index := .kNew } := hframe
  have hinv := h.set hc hothers hreflects hframe
  refine ⟨_, ?_, hinv, h.othersKept hothers hinv hframe, hfailed⟩
  simp [next, call, hc, Channel.remove, hremove]

theorem Inv.new (h : s.Inv) (hold : ∀ c, s.channels addr = some c → c.index = .kNew) (fd : Fd)
    (callbacks : List Callback)
    : Inv { s with channels := Function.update s.channels addr (some (Channel.new addr fd callbacks)) } := by
  refine ⟨?_, ?_, ?_, ?_⟩
  . intro other d hd
    obtain ⟨rfl, rfl⟩ | ⟨_, hkept⟩ := update_cases hd
    . rfl
    . exact h.addr other d hkept
  . intro other other' d d' hd hd' hfd hindex hindex'
    obtain ⟨rfl, rfl⟩ | ⟨_, hkept⟩ := update_cases hd
    . exact absurd rfl hindex
    . obtain ⟨rfl, rfl⟩ | ⟨_, hkept'⟩ := update_cases hd'
      . exact absurd rfl hindex'
      . exact h.one other other' d d' hkept hkept' hfd hindex hindex'
  . intro other d hd hindex
    obtain ⟨rfl, rfl⟩ | ⟨_, hkept⟩ := update_cases hd
    . exact absurd rfl hindex
    . exact h.used other d hkept hindex
  . intro fd' hunused
    apply h.unused fd'
    intro other d hd hfd
    by_cases heq : other = addr
    . exact hold d (heq ▸ hd)
    . exact hunused other d ((Function.update_of_ne heq ..).trans hd) hfd

theorem Inv.step (h : s.Inv) (hobey : s.CallersObey a) (henabled : s.enabled a = true) : s.Succeeds a := by
  cases a with
  | new addr fd callbacks =>
    have hold : ∀ c, s.channels addr = some c → c.index = .kNew := by
      intro c hc
      simpa [enabled, hc] using henabled
    refine ⟨_, rfl, h.new hold fd callbacks, ⟨?_, fun _ _ _ _ => Iff.rfl, fun _ _ _ _ _ => Iff.rfl⟩, rfl⟩
    intro other hne
    exact Function.update_of_ne hne ..
  | remove addr => exact h.remove hobey henabled
  | enableReading addr =>
    exact h.update (g := (· ||| Channel.kReadEvent)) rfl (fun _ _ => rfl) hobey henabled
  | disableReading addr =>
    exact h.update (g := (· &&& ~~~Channel.kReadEvent)) rfl (fun _ _ => rfl) hobey henabled
  | enableWriting addr =>
    exact h.update (g := (· ||| Channel.kWriteEvent)) rfl (fun _ _ => rfl) hobey henabled
  | disableWriting addr =>
    exact h.update (g := (· &&& ~~~Channel.kWriteEvent)) rfl (fun _ _ => rfl) hobey henabled
  | disableAll addr =>
    exact h.update (g := fun _ => Channel.kNoneEvent) rfl (fun _ _ => rfl) hobey henabled

theorem inv_reachable (h : system.ReachableBy CallersObey s) : s.Inv := by
  apply h.invariant Inv
  . rintro _ ⟨⟩
    refine ⟨?_, ?_, ?_, ?_⟩
    . intro addr c hc
      cases hc
    . intro addr other c d hc
      cases hc
    . intro addr c hc
      cases hc
    . exact fun _ _ => ⟨rfl, rfl⟩
  . intro s a s' hinv hobey hstep
    obtain ⟨henabled, hnext⟩ := LTS.guarded_step.mp hstep
    obtain ⟨s₁, hnext₁, hinv₁, _⟩ := hinv.step hobey henabled
    rw [hnext, Option.some.injEq] at hnext₁
    exact hnext₁ ▸ hinv₁

/--
As long as the callers obey, the three records agree behind every operation, no call of `epoll_ctl` fails, and
no operation touches another channel.
-/
theorem records_agree (hs : system.ReachableBy CallersObey s)
    : s.OnePerFd ∧ s.Matches
        ∧ ∀ a, s.CallersObey a → s.enabled a = true →
          ∃ s', system.step s a = some s' ∧ s'.OnePerFd ∧ s'.Matches ∧ OthersKept s s' a.addr
            ∧ s'.poller.failed = s.poller.failed := by
  have hinv := inv_reachable hs
  refine ⟨hinv.one, hinv.matches, ?_⟩
  intro a hobey henabled
  obtain ⟨s', hnext, hinv', hothers, hfailed⟩ := hinv.step hobey henabled
  have hstep : system.step s a = some s' := LTS.guarded_step.mpr ⟨henabled, hnext⟩
  exact ⟨s', hstep, hinv'.one, hinv'.matches, hothers, hfailed⟩

-- a channel is removed, and another one takes over its descriptor
def handedOver : ChannelTable :=
  (system.run { poller := .empty, channels := fun _ => none }
    [.new 1 5 [.read], .enableReading 1, .remove 1, .new 2 5 [.write]]).get rfl

theorem records_agree_handedOver
    : ∃ s, system.step handedOver (.enableWriting 2) = some s ∧ s.Matches
        ∧ s.poller.epoll 5 = some (EPOLLOUT, 2) := by
  have hs : system.ReachableBy CallersObey handedOver := by
    refine .step (a := .new 2 5 [.write])
      (.step (a := .remove 1)
        (.step (a := .enableReading 1) (.step (a := .new 1 5 [.read]) (.init rfl) trivial rfl) ?_ rfl) ?_ rfl)
      trivial rfl
    . intro c _ _ addr d hd _
      obtain ⟨_, rfl⟩ | ⟨_, hd⟩ := update_cases hd
      . rfl
      . cases hd
    . intro c hc hindex
      cases hc
      cases hindex
  have hobey : handedOver.CallersObey (.enableWriting 2) := by
    intro c _ _ addr d hd _
    obtain ⟨_, rfl⟩ | ⟨_, hd⟩ := update_cases hd
    . rfl
    . obtain ⟨_, rfl⟩ | ⟨hne, hd⟩ := update_cases hd
      . rfl
      . cases (Function.update_of_ne hne ..).symm.trans ((Function.update_of_ne hne ..).symm.trans hd)
  obtain ⟨s, hstep, _, hmatches, _⟩ := (records_agree hs).2.2 _ hobey rfl
  have heq : system.step handedOver (.enableWriting 2) = some _ := rfl
  refine ⟨s, hstep, hmatches, ?_⟩
  rw [hstep, Option.some.injEq] at heq
  rw [heq]
  rfl

end ChannelTable

end MyMuduo
