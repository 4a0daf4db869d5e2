import Mathlib.Algebra.Ring.Nat
import MyMuduo.Poller.Dispatch

/-!
This module contains the polls of a loop whose reports come from the interest set: no report refers to a channel
that is not there, the vector that takes the reports grows with them, and a channel that has been taken out is not
reported again.
-/

namespace MyMuduo

namespace EPollPoller

def kInitEventListSize : Nat := 16

def hasChannel (p : EPollPoller) (c : Channel) : Bool :=
  p.channels c.fd = some c.addr

end EPollPoller

namespace ChannelTable

variable {s s' : ChannelTable} {addr : Addr} {c : Channel}

theorem hasChannel_iff (h : s.Inv) (hc : s.channels addr = some c)
    : s.poller.hasChannel c = true ↔ c.index ≠ .kNew := by
  have hmatches := h.matches.channels addr c hc
  rw [EPollPoller.hasChannel, decide_eq_true_eq, h.addr addr c hc, hmatches]
  cases c.index <;> simp

-- `set_revents` touches nothing that the records speak of
theorem Inv.setRevents (h : s.Inv) (hc : s.channels addr = some c) (revents : Events)
    : Inv { s with channels := Function.update s.channels addr (some { c with revents := revents }) } := by
  have hback : ∀ other d, Function.update s.channels addr (some { c with revents := revents }) other = some d →
      ∃ d₀, s.channels other = some d₀ ∧ d = { d₀ with revents := d.revents } := by
    intro other d hd
    obtain ⟨rfl, rfl⟩ | ⟨_, hkept⟩ := update_cases hd
    . exact ⟨c, hc, rfl⟩
    . exact ⟨d, hkept, rfl⟩
  refine ⟨?_, ?_, ?_, ?_⟩
  . intro other d hd
    obtain ⟨d₀, hd₀, heq⟩ := hback other d hd
    rw [heq]
    exact h.addr other d₀ hd₀
  . intro other other' d d' hd hd' hfd hindex hindex'
    obtain ⟨d₀, hd₀, heq⟩ := hback other d hd
    obtain ⟨d₁, hd₁, heq'⟩ := hback other' d' hd'
    rw [heq] at hfd hindex
    rw [heq'] at hfd hindex'
    exact h.one other other' d₀ d₁ hd₀ hd₁ hfd hindex hindex'
  . intro other d hd hindex
    obtain ⟨d₀, hd₀, heq⟩ := hback other d hd
    rw [heq] at hindex ⊢
    have hreflects := h.used other d₀ hd₀ hindex
    exact ⟨hreflects.kNew, hreflects.kAdded, hreflects.kDelete⟩
  . intro fd hunused
    apply h.unused fd
    intro other d₀ hd₀ hfd
    by_cases heq : other = addr
    . subst heq
      rw [hc, Option.some.injEq] at hd₀
      subst hd₀
      have hindex : { c with revents := revents }.index = .kNew :=
        hunused other _ (Function.update_self ..) hfd
      exact hindex
    . exact hunused other d₀ ((Function.update_of_ne heq ..).trans hd₀) hfd

-- an entry of the interest set is that of a channel in use
theorem Inv.of_entry (h : s.Inv) {fd : Fd} {mask : Events} (hentry : s.poller.epoll fd = some (mask, addr))
    : ∃ c, s.channels addr = some c ∧ c.fd = fd ∧ c.events = mask ∧ c.index = .kAdded := by
  obtain ⟨other, c, hc, rfl, hindex⟩ := h.matches.present fd (by rw [hentry]; rfl)
  have heq := (h.matches.epoll other c hc).mpr hindex
  rw [hentry, Option.some.injEq, Prod.mk.injEq] at heq
  obtain ⟨rfl, rfl⟩ := heq
  exact ⟨c, hc, rfl, rfl, hindex⟩

theorem OthersKept.trans {s₁ : ChannelTable} (h₁ : OthersKept s s₁ addr) (h₂ : OthersKept s₁ s' addr)
    : OthersKept s s' addr := by
  refine ⟨?_, ?_, ?_⟩
  . intro other hne
    exact (h₂.channels other hne).trans (h₁.channels other hne)
  . intro other d hne hd
    have hd₁ := (h₁.channels other hne).trans hd
    exact (h₂.map other d hne hd₁).trans (h₁.map other d hne hd)
  . intro other d events hne hd
    have hd₁ := (h₁.channels other hne).trans hd
    exact (h₂.epoll other d events hne hd₁).trans (h₁.epoll other d events hne hd)

theorem channels_remove (hnext : s.next (.remove addr) = some s')
    : ∃ c', s'.channels addr = some c' ∧ c'.index = .kNew := by
  obtain ⟨c', hchannels, hcases⟩ := channels_next hnext
  refine ⟨c', ?_, ?_⟩
  . rw [hchannels]
    exact Function.update_self ..
  . obtain ⟨_, _, hnew, _⟩ | ⟨_, _, _, rfl, hremoved⟩ := hcases
    . cases hnew
    . exact hremoved rfl

/--
`disableAll` and then `remove`: whatever the channel was before, the poller knows nothing of it afterwards.
-/
theorem Inv.disableAll_remove (h : s.Inv) (hc : s.channels addr = some c)
    (hobey : s.CallersObey (.disableAll addr))
    : ∃ s₁ s', s.next (.disableAll addr) = some s₁ ∧ s₁.enabled (.remove addr) = true
        ∧ s₁.CallersObey (.remove addr) ∧ s₁.next (.remove addr) = some s' ∧ s'.Inv ∧ OthersKept s s' addr
        ∧ ∃ c', s'.channels addr = some c' ∧ c'.index = .kNew := by
  have henabled : s.enabled (.disableAll addr) = true := Option.isSome_of_eq_some hc
  obtain ⟨s₁, hdisable, hinv₁, hothers₁, _⟩ := h.step hobey henabled
  obtain ⟨c₁, hc₁, _, _, hindex⟩ := updated h hobey (a := .disableAll addr) hc rfl hdisable
  have hc₁ : s₁.channels addr = some c₁ := hc₁
  have henabled₁ : s₁.enabled (.remove addr) = true := Option.isSome_of_eq_some hc₁
  have hobey₁ : s₁.CallersObey (.remove addr) := by
    intro d hd hnew
    have hd : s₁.channels addr = some d := hd
    rw [hc₁, Option.some.injEq] at hd
    subst hd
    split at hindex <;> simp [hnew] at hindex
  obtain ⟨s', hremove, hinv', hothers', _⟩ := hinv₁.step hobey₁ henabled₁
  exact ⟨s₁, s', hdisable, henabled₁, hobey₁, hremove, hinv', hothers₁.trans hothers', channels_remove hremove⟩

-- only a call of `updateChannel` for the channel brings it into the interest set
theorem Inv.entry_of_next {a : Label} (h : s.Inv) (hobey : s.CallersObey a) (henabled : s.enabled a = true)
    (hnext : s.next a = some s') {fd : Fd} {events : Events}
    (hentry : s'.poller.epoll fd = some (events, addr))
    : (∃ mask, s.poller.epoll fd = some (mask, addr)) ∨ a.addr = addr ∧ a ≠ .remove addr := by
  obtain ⟨s₁, hnext₁, hinv', hothers, _⟩ := h.step hobey henabled
  rw [hnext, Option.some.injEq] at hnext₁
  subst hnext₁
  obtain ⟨d, hd, rfl, _, hindex⟩ := hinv'.of_entry hentry
  by_cases haddr : a.addr = addr
  . refine .inr ⟨haddr, ?_⟩
    rintro rfl
    obtain ⟨c', hc', hnew⟩ := channels_remove hnext
    have hd : s'.channels addr = some d := hd
    rw [hc', Option.some.injEq] at hd
    rw [← hd, hnew] at hindex
    cases hindex
  . have hne : addr ≠ a.addr := Ne.symm haddr
    rw [hothers.channels addr hne] at hd
    exact .inl ⟨_, (h.matches.epoll addr d hd).mpr hindex⟩

end ChannelTable

/--
A loop and the vector `events_` of its poller, of which the size matters.
-/
structure Polling where
  dispatch : Dispatch
  events_ : Nat

namespace Polling

/--
`epoll_wait` reports descriptors with what has happened on them.
-/
inductive Label where
  | poll (ready : List (Fd × Events))
  -- every other step of the loop
  | loop (a : Dispatch.Label)
  deriving DecidableEq, Repr

def table (s : Polling) : ChannelTable :=
  s.dispatch.table

-- the pointers in `data.ptr` come from the interest set
def reports (s : Polling) (ready : List (Fd × Events)) : List (Events × Addr) :=
  ready.filterMap fun (fd, events) => (s.table.poller.epoll fd).map fun (_, addr) => (events, addr)

def isReady (s : Polling) (report : Fd × Events) : Bool :=
  report.2 ≠ 0
    && (s.table.poller.epoll report.1).any fun (mask, _) => Channel.Within report.2 (Channel.reportable mask)

def isPoll : Dispatch.Label → Bool
  | .poll _ => true
  | _ => false

def enabled (s : Polling) : Label → Bool
  | .poll ready =>
    s.dispatch.activeChannels.isEmpty && ready.all s.isReady && (ready.map Prod.fst).Nodup
      && ready.length ≤ s.events_
  | .loop a => !isPoll a && s.dispatch.enabled a

-- the size of `events_` behind a poll
def resized (s : Polling) (numEvents : Nat) : Nat :=
  if 0 < numEvents && numEvents = s.events_ then s.events_ * 2 else s.events_

def next (s : Polling) : Label → Option Polling
  | .poll ready =>
    (s.dispatch.next (.poll (s.reports ready))).map fun dispatch =>
      { dispatch := dispatch, events_ := s.resized ready.length }
  | .loop a => (s.dispatch.next a).map fun dispatch => { s with dispatch := dispatch }

def initial : Polling where
  dispatch := .initial
  events_ := EPollPoller.kInitEventListSize

def system : LTS Polling Label :=
  .guarded (fun s => s = initial) enabled next

def CallersObey (s : Polling) : Label → Prop
  | .loop (.call a) => s.table.CallersObey a
  | _ => True

end Polling

/-
What `fillActiveChannels` finds.
-/

namespace Dispatch

variable {s s' : Dispatch}

theorem fillActiveChannels_spec (reports : List (Events × Addr)) (hinv : s.table.Inv)
    (hlive : ∀ report ∈ reports, (s.table.channels report.2).isSome = true)
    : ∃ s', s.fillActiveChannels reports = some s' ∧ s'.table.Inv
        ∧ s'.table.poller = s.table.poller ∧ s'.activeChannels = s.activeChannels ++ reports.map Prod.snd := by
  induction reports generalizing s with
  | nil => exact ⟨s, rfl, hinv, rfl, by simp⟩
  | cons report reports ih =>
    obtain ⟨events, addr⟩ := report
    rw [List.forall_mem_cons] at hlive
    obtain ⟨c, hc⟩ := Option.isSome_iff_exists.mp hlive.1
    have hinv' : { s.setRevents addr c events with activeChannels := s.activeChannels ++ [addr] }.table.Inv :=
      hinv.setRevents hc events
    have hlive' : ∀ report ∈ reports, ((s.setRevents addr c events).table.channels report.2).isSome = true := by
      intro report hmem
      simp only [setRevents, Function.update_apply]
      split
      . rfl
      . exact hlive.2 report hmem
    obtain ⟨s', hfill, hinv'', hpoller, hactive⟩ := ih hinv' hlive'
    refine ⟨s', ?_, hinv'', hpoller, ?_⟩
    . simp only [fillActiveChannels, hc, Option.bind_some]
      exact hfill
    . rw [hactive]
      simp

end Dispatch

namespace Polling

variable {s s' : Polling} {a : Label} {addr : Addr}

-- the report for a descriptor refers to a channel that is in use under this descriptor
theorem of_ready (hinv : s.table.Inv) {ready : List (Fd × Events)} (hready : ready.all s.isReady = true)
    {report : Fd × Events} (hmem : report ∈ ready)
    : ∃ addr c, s.table.poller.epoll report.1 = some (c.events, addr) ∧ s.table.channels addr = some c
        ∧ c.fd = report.1 ∧ c.index = .kAdded ∧ report.2 ≠ 0
        ∧ Channel.Within report.2 (Channel.reportable c.events) := by
  have hreport := List.all_eq_true.mp hready report hmem
  simp only [isReady, Bool.and_eq_true, decide_eq_true_eq, Option.any_eq_true] at hreport
  obtain ⟨hsome, ⟨mask, addr⟩, hentry, hwithin⟩ := hreport
  obtain ⟨c, hc, hfd, rfl, hindex⟩ := hinv.of_entry hentry
  exact ⟨addr, c, hentry, hc, hfd, hindex, hsome, hwithin⟩

theorem mem_reports {ready : List (Fd × Events)} {events : Events}
    : (events, addr) ∈ s.reports ready
        ↔ ∃ fd mask, (fd, events) ∈ ready ∧ s.table.poller.epoll fd = some (mask, addr) := by
  simp only [reports, List.mem_filterMap, Option.map_eq_some_iff, Prod.exists, Prod.mk.injEq]
  constructor
  . rintro ⟨fd, events', hmem, mask, addr', hentry, rfl, rfl⟩
    exact ⟨fd, mask, hmem, hentry⟩
  . rintro ⟨fd, mask, hmem, hentry⟩
    exact ⟨fd, events, hmem, mask, addr, hentry, rfl, rfl⟩

theorem length_reports (hinv : s.table.Inv) {ready : List (Fd × Events)} (hready : ready.all s.isReady = true)
    : (s.reports ready).length = ready.length := by
  induction ready with
  | nil => rfl
  | cons report ready ih =>
    obtain ⟨addr, c, hentry, _⟩ := of_ready hinv hready List.mem_cons_self
    rw [List.all_cons, Bool.and_eq_true] at hready
    have htail : ((s.reports ready).length : Nat) = ready.length := ih hready.2
    have hcons : s.reports (report :: ready) = (report.2, addr) :: s.reports ready := by
      simp only [reports, List.filterMap_cons, hentry, Option.map_some]
    rw [hcons, List.length_cons, List.length_cons, htail]

-- no channel is reported twice
theorem nodup_reports (hinv : s.table.Inv) {ready : List (Fd × Events)} (hready : ready.all s.isReady = true)
    (hnodup : (ready.map Prod.fst).Nodup) : ((s.reports ready).map Prod.snd).Nodup := by
  induction ready with
  | nil => exact List.nodup_nil
  | cons report ready ih =>
    obtain ⟨addr, c, hentry, hc, hfd, _⟩ := of_ready hinv hready List.mem_cons_self
    rw [List.all_cons, Bool.and_eq_true] at hready
    rw [List.map_cons, List.nodup_cons] at hnodup
    have hcons : s.reports (report :: ready) = (report.2, addr) :: s.reports ready := by
      simp only [reports, List.filterMap_cons, hentry, Option.map_some]
    rw [hcons, List.map_cons, List.nodup_cons]
    refine ⟨?_, ih hready.2 hnodup.2⟩
    intro hmem
    obtain ⟨⟨events, addr'⟩, hreport, rfl⟩ := List.mem_map.mp hmem
    obtain ⟨fd, mask, hready', hentry'⟩ := mem_reports.mp hreport
    obtain ⟨d, hd, hfd', _⟩ := hinv.of_entry hentry'
    rw [hc, Option.some.injEq] at hd
    subst hd
    rw [hfd] at hfd'
    exact hnodup.1 (List.mem_map.mpr ⟨_, hready', hfd'.symm⟩)

/--
Whatever the kernel reports, the poll goes through, and it is one of the loop over the channels.
-/
theorem poll_spec (hinv : s.table.Inv) {ready : List (Fd × Events)} (henabled : s.enabled (.poll ready) = true)
    : ∃ s', s.next (.poll ready) = some s' ∧ s'.table.Inv ∧ s'.table.poller = s.table.poller
        ∧ s'.dispatch.activeChannels = (s.reports ready).map Prod.snd
        ∧ Dispatch.system.step s.dispatch (.poll (s.reports ready)) = some s'.dispatch := by
  simp only [enabled, Bool.and_eq_true, decide_eq_true_eq] at henabled
  obtain ⟨⟨⟨hidle, hready⟩, hnodup⟩, _⟩ := henabled
  have hlive : ∀ report ∈ s.reports ready, (s.table.channels report.2).isSome = true := by
    rintro ⟨events, addr⟩ hmem
    obtain ⟨fd, mask, _, hentry⟩ := mem_reports.mp hmem
    obtain ⟨c, hc, _⟩ := hinv.of_entry hentry
    exact Option.isSome_of_eq_some hc
  obtain ⟨dispatch, hfill, hinv', hpoller, hactive⟩ :=
    Dispatch.fillActiveChannels_spec (s := { s.dispatch with reports := s.reports ready, activeChannels := [] })
      (s.reports ready) hinv hlive
  have hnext : s.dispatch.next (.poll (s.reports ready)) = some dispatch := hfill
  refine ⟨{ dispatch := dispatch, events_ := s.resized ready.length }, ?_, hinv', hpoller, ?_, ?_⟩
  . simp only [next, hnext, Option.map_some]
  . rw [hactive, List.nil_append]
  . refine LTS.guarded_step.mpr ⟨?_, hnext⟩
    simp only [Dispatch.enabled, Bool.and_eq_true, decide_eq_true_eq, List.all_eq_true]
    refine ⟨⟨hidle, ?_⟩, nodup_reports hinv hready hnodup⟩
    rintro ⟨events, addr⟩ hmem
    obtain ⟨fd, mask, hreport, hentry⟩ := mem_reports.mp hmem
    obtain ⟨_, c, hentry', hc, _, _, hsome, hwithin⟩ := of_ready hinv hready hreport
    rw [hentry, Option.some.injEq, Prod.mk.injEq] at hentry'
    obtain ⟨rfl, rfl⟩ := hentry'
    simp only [Dispatch.reportable, Bool.and_eq_true, decide_eq_true_eq, Option.any_eq_true]
    exact ⟨hsome, c, hc, hwithin⟩

theorem enabled_call {b : ChannelTable.Label} (h : s.dispatch.enabled (.call b) = true) : s.table.enabled b = true := by
  cases b with
  | new => exact (Bool.and_eq_true_iff.mp h).1
  | enableReading | disableReading | enableWriting | disableWriting | disableAll | remove => exact h

theorem inv_step (hinv : s.table.Inv) (hobey : s.CallersObey a) (hstep : system.step s a = some s')
    : s'.table.Inv := by
  obtain ⟨henabled, hnext⟩ := LTS.guarded_step.mp hstep
  cases a with
  | poll ready =>
    obtain ⟨s₁, hnext₁, hinv₁, _⟩ := poll_spec hinv henabled
    rw [hnext, Option.some.injEq] at hnext₁
    exact hnext₁ ▸ hinv₁
  | loop a =>
    simp only [enabled, Bool.and_eq_true] at henabled
    simp only [next, Option.map_eq_some_iff] at hnext
    obtain ⟨dispatch, hdispatch, rfl⟩ := hnext
    cases a with
    | poll => simp [isPoll] at henabled
    | handleEvent =>
      simp only [Dispatch.next] at hdispatch
      split at hdispatch
      . cases hdispatch
      . simp only [Option.map_eq_some_iff] at hdispatch
        obtain ⟨_, _, rfl⟩ := hdispatch
        exact hinv
    | call b =>
      simp only [Dispatch.next, Option.map_eq_some_iff] at hdispatch
      obtain ⟨table, hcall, rfl⟩ := hdispatch
      obtain ⟨table', hcall', hinv', _⟩ := hinv.step hobey (enabled_call henabled.2)
      have heq : s.dispatch.table.next b = some table' := hcall'
      rw [hcall, Option.some.injEq] at heq
      exact heq ▸ hinv'
    | tie | release =>
      simp only [Dispatch.next, Option.some.injEq] at hdispatch
      subst hdispatch
      exact hinv

theorem inv_reachable (h : system.ReachableBy CallersObey s) : s.table.Inv := by
  refine h.invariant (fun s => s.table.Inv) ?_ fun s a s' hinv hobey hstep => inv_step hinv hobey hstep
  rintro _ rfl
  exact ChannelTable.inv_reachable (.init rfl)

theorem dispatch_step (hinv : s.table.Inv) (hstep : system.step s a = some s')
    : ∃ b, Dispatch.system.step s.dispatch b = some s'.dispatch := by
  obtain ⟨henabled, hnext⟩ := LTS.guarded_step.mp hstep
  cases a with
  | poll ready =>
    obtain ⟨s₁, hnext₁, _, _, _, hdispatch⟩ := poll_spec hinv henabled
    rw [hnext, Option.some.injEq] at hnext₁
    exact ⟨_, hnext₁ ▸ hdispatch⟩
  | loop a =>
    simp only [enabled, Bool.and_eq_true] at henabled
    simp only [next, Option.map_eq_some_iff] at hnext
    obtain ⟨dispatch, hdispatch, rfl⟩ := hnext
    exact ⟨a, LTS.guarded_step.mpr ⟨henabled.2, hdispatch⟩⟩

theorem dispatch_reachable (h : system.ReachableBy CallersObey s) : Dispatch.system.Reachable s.dispatch := by
  induction h with
  | init hinit =>
    subst hinit
    exact .init rfl
  | step hs _ hstep ih =>
    obtain ⟨b, hdispatch⟩ := dispatch_step (inv_reachable hs) hstep
    exact .step ih trivial hdispatch

/--
As long as the callers obey, every poll goes through: each report is that of a channel in use, which is marked with
it and comes up once. The loop over the channels is the one whose dispatch is known.
-/
theorem polls_go_through (s : Polling) (h : system.ReachableBy CallersObey s)
    : Dispatch.system.Reachable s.dispatch
        ∧ ∀ ready, s.enabled (.poll ready) = true →
          ∃ s', system.step s (.poll ready) = some s' ∧ s'.dispatch.activeChannels.Nodup
            ∧ s'.dispatch.activeChannels.length = ready.length
            ∧ ∀ fd events, (fd, events) ∈ ready →
              ∃ addr c, addr ∈ s'.dispatch.activeChannels ∧ s'.table.channels addr = some c ∧ c.fd = fd
                ∧ c.index = .kAdded ∧ c.revents = events := by
  have hinv := inv_reachable h
  refine ⟨dispatch_reachable h, ?_⟩
  intro ready henabled
  obtain ⟨s', hnext, hinv', hpoller, hactive, hdispatch⟩ := poll_spec hinv henabled
  have hguard := henabled
  simp only [enabled, Bool.and_eq_true, decide_eq_true_eq] at hguard
  obtain ⟨⟨⟨_, hready⟩, hnodup⟩, _⟩ := hguard
  have hdistinct := nodup_reports hinv hready hnodup
  refine ⟨s', LTS.guarded_step.mpr ⟨henabled, hnext⟩, ?_, ?_, ?_⟩
  . rw [hactive]
    exact hdistinct
  . rw [hactive, List.length_map, length_reports hinv hready]
  . intro fd events hmem
    obtain ⟨addr, c, hentry, _⟩ := of_ready hinv hready hmem
    have hreport : (events, addr) ∈ s.reports ready := mem_reports.mpr ⟨fd, c.events, hmem, hentry⟩
    have hfilled := Dispatch.filled _ hdistinct (LTS.guarded_step.mp hdispatch).2
    obtain ⟨c', hc', hrevents⟩ := hfilled.marked events addr hreport
    rw [← hpoller] at hentry
    obtain ⟨d, hd, hfd, _, hindex⟩ := hinv'.of_entry hentry
    have hsame : s'.table.channels addr = some c' := hc'
    rw [hd, Option.some.injEq] at hsame
    subst hsame
    refine ⟨addr, d, ?_, hd, hfd, hindex, hrevents⟩
    rw [hactive]
    exact List.mem_map.mpr ⟨_, hreport, rfl⟩

/--
At most `n` descriptors are in the interest set.
-/
def WatchesAtMost (s : Polling) (n : Nat) : Prop :=
  ∀ fds : List Fd, fds.Nodup → (∀ fd ∈ fds, (s.table.poller.epoll fd).isSome = true) → fds.length ≤ n

theorem length_ready_le {n : Nat} (hwatches : s.WatchesAtMost n) {ready : List (Fd × Events)}
    (henabled : s.enabled (.poll ready) = true) : ready.length ≤ n := by
  simp only [enabled, Bool.and_eq_true, decide_eq_true_eq] at henabled
  obtain ⟨⟨⟨_, hready⟩, hnodup⟩, _⟩ := henabled
  rw [← List.length_map Prod.fst]
  apply hwatches _ hnodup
  intro fd hmem
  obtain ⟨report, hreport, rfl⟩ := List.mem_map.mp hmem
  have hisReady := List.all_eq_true.mp hready report hreport
  simp only [isReady, Bool.and_eq_true, Option.any_eq_true] at hisReady
  obtain ⟨_, entry, hentry, _⟩ := hisReady
  exact Option.isSome_of_eq_some hentry

-- the reports fill the vector
def fills (s : Polling) : Label → Bool
  | .poll ready => ready.length = s.events_
  | .loop _ => false

theorem events_step (hpositive : 0 < s.events_) (hstep : system.step s a = some s')
    : s'.events_ = if s.fills a then s.events_ * 2 else s.events_ := by
  obtain ⟨_, hnext⟩ := LTS.guarded_step.mp hstep
  cases a with
  | poll ready =>
    simp only [next, Option.map_eq_some_iff] at hnext
    obtain ⟨dispatch, _, rfl⟩ := hnext
    by_cases hfull : ready.length = s.events_
    . simp [resized, fills, hfull, hpositive]
    . simp [resized, fills, hfull]
  | loop a =>
    simp only [next, Option.map_eq_some_iff] at hnext
    obtain ⟨dispatch, _, rfl⟩ := hnext
    rfl

theorem le_of_fills {n : Nat} (hwatches : s.WatchesAtMost n) (henabled : s.enabled a = true)
    (hfills : s.fills a = true) : s.events_ ≤ n := by
  cases a with
  | poll ready =>
    have hfull : ready.length = s.events_ := of_decide_eq_true hfills
    rw [← hfull]
    exact length_ready_le hwatches henabled
  | loop a => cases hfills

/--
A poll that fills `events_` doubles it, and nothing else changes its size. As long as no more than `n` descriptors
are watched it grows to no more than twice as much.
-/
theorem events_bounded (n : Nat) (s : Polling) (h : system.ReachableBy (fun s _ => s.WatchesAtMost n) s)
    : (∃ k, s.events_ = EPollPoller.kInitEventListSize * 2 ^ k)
        ∧ s.events_ ≤ max EPollPoller.kInitEventListSize (2 * n)
        ∧ ∀ a s', system.step s a = some s' →
          s'.events_ = if s.fills a then s.events_ * 2 else s.events_ := by
  have hpositive : ∀ k, 0 < EPollPoller.kInitEventListSize * 2 ^ k :=
    fun k => Nat.mul_pos (by decide) (Nat.two_pow_pos k)
  have hsize : (∃ k, s.events_ = EPollPoller.kInitEventListSize * 2 ^ k)
      ∧ s.events_ ≤ max EPollPoller.kInitEventListSize (2 * n) := by
    induction h with
    | init hinit =>
      subst hinit
      exact ⟨⟨0, rfl⟩, Nat.le_max_left _ _⟩
    | step _ hwatches hstep ih =>
      obtain ⟨⟨k, hpower⟩, hle⟩ := ih
      rw [events_step (hpower ▸ hpositive k) hstep]
      split
      . next hfills =>
        have hsmall := le_of_fills hwatches (LTS.guarded_step.mp hstep).1 hfills
        refine ⟨⟨k + 1, ?_⟩, ?_⟩
        . rw [hpower, Nat.pow_succ, Nat.mul_assoc]
        . omega
      . exact ⟨⟨k, hpower⟩, hle⟩
  refine ⟨hsize.1, hsize.2, ?_⟩
  intro a s' hstep
  obtain ⟨k, hpower⟩ := hsize.1
  exact events_step (hpower ▸ hpositive k) hstep

-- the step calls `updateChannel` for the channel
def updates (addr : Addr) : Label → Bool
  | .loop (.call (.remove _)) => false
  | .loop (.call a) => a.addr = addr
  | _ => false

/--
The channel is out of the interest set, and comes up again at most in what is left of `batch`.
-/
structure Out (addr : Addr) (batch : List Addr) (s : Polling) : Prop where
  absent : ∀ fd events, s.table.poller.epoll fd ≠ some (events, addr)
  active : addr ∈ s.dispatch.activeChannels → s.dispatch.activeChannels <:+ batch

theorem Out.step {batch : List Addr} (h : Out addr batch s) (hinv : s.table.Inv) (hobey : s.CallersObey a)
    (hquiet : updates addr a = false) (hstep : system.step s a = some s') : Out addr batch s' := by
  obtain ⟨henabled, hnext⟩ := LTS.guarded_step.mp hstep
  cases a with
  | poll ready =>
    obtain ⟨s₁, hnext₁, _, hpoller, hactive, _⟩ := poll_spec hinv henabled
    rw [hnext, Option.some.injEq] at hnext₁
    subst hnext₁
    refine ⟨?_, ?_⟩
    . rw [hpoller]
      exact h.absent
    . intro hmem
      rw [hactive] at hmem
      obtain ⟨⟨events, _⟩, hreport, rfl⟩ := List.mem_map.mp hmem
      obtain ⟨fd, mask, _, hentry⟩ := mem_reports.mp hreport
      exact absurd hentry (h.absent fd mask)
  | loop a =>
    simp only [enabled, Bool.and_eq_true] at henabled
    simp only [next, Option.map_eq_some_iff] at hnext
    obtain ⟨dispatch, hdispatch, rfl⟩ := hnext
    cases a with
    | poll => simp [isPoll] at henabled
    | handleEvent =>
      simp only [Dispatch.next] at hdispatch
      split at hdispatch
      . cases hdispatch
      . next other rest hactive =>
        simp only [Option.map_eq_some_iff] at hdispatch
        obtain ⟨_, _, rfl⟩ := hdispatch
        refine ⟨h.absent, ?_⟩
        intro hmem
        have hsuffix := h.active (hactive ▸ List.mem_cons_of_mem _ hmem)
        rw [hactive] at hsuffix
        exact (List.suffix_cons _ _).trans hsuffix
    | call b =>
      simp only [Dispatch.next, Option.map_eq_some_iff] at hdispatch
      obtain ⟨table, hcall, rfl⟩ := hdispatch
      refine ⟨?_, h.active⟩
      intro fd events hentry
      obtain ⟨mask, hold⟩ | ⟨haddr, hne⟩ := hinv.entry_of_next hobey (enabled_call henabled.2) hcall hentry
      . exact h.absent fd mask hold
      . cases b with
        | remove other =>
          have heq : other = addr := haddr
          exact hne (heq ▸ rfl)
        | new | enableReading | disableReading | enableWriting | disableWriting | disableAll =>
          exact absurd haddr (of_decide_eq_false hquiet)
    | tie | release =>
      simp only [Dispatch.next, Option.some.injEq] at hdispatch
      subst hdispatch
      exact ⟨h.absent, h.active⟩

def setTable (s : Polling) (table : ChannelTable) : Polling :=
  { s with dispatch.table := table }

theorem call_step {b : ChannelTable.Label} {table : ChannelTable} (hb : ∀ addr fd callbacks, b ≠ .new addr fd callbacks)
    (henabled : s.table.enabled b = true) (hnext : s.table.next b = some table)
    : system.step s (.loop (.call b)) = some (s.setTable table) := by
  refine LTS.guarded_step.mpr ⟨?_, ?_⟩
  . cases b with
    | new addr fd callbacks => exact absurd rfl (hb addr fd callbacks)
    | enableReading | disableReading | enableWriting | disableWriting | disableAll | remove => exact henabled
  . have hcall : s.dispatch.table.next b = some table := hnext
    simp only [next, Dispatch.next, hcall, Option.map_some, setTable]

/--
A channel that is given up with `disableAll` and `remove` is unknown to the poller, and no other channel notices.
Until `updateChannel` is called for it again, if only to disable it, it is not dispatched, but for the batch in
progress.
-/
theorem detached (s : Polling) (h : system.ReachableBy CallersObey s) (addr : Addr) (c : Channel)
    (hc : s.table.channels addr = some c) (hobey : s.CallersObey (.loop (.call (.disableAll addr))))
    : ∃ s', system.run s [.loop (.call (.disableAll addr)), .loop (.call (.remove addr))] = some s'
        ∧ (∃ c', s'.table.channels addr = some c' ∧ s'.table.poller.hasChannel c' = false)
        ∧ ChannelTable.OthersKept s.table s'.table addr
        ∧ ∀ s'', (system.startingAt s').ReachableBy (fun s a => s.CallersObey a ∧ updates addr a = false) s'' →
          (∀ fd events, s''.table.poller.epoll fd ≠ some (events, addr))
            ∧ (addr ∈ s''.dispatch.activeChannels → s''.dispatch.activeChannels <:+ s.dispatch.activeChannels) := by
  have hinv := inv_reachable h
  obtain ⟨table₁, table', hdisable, henabled₁, hobey₁, hremove, hinv', hothers, c', hc', hnew⟩ :=
    hinv.disableAll_remove hc hobey
  have henabled : s.table.enabled (.disableAll addr) = true := Option.isSome_of_eq_some hc
  have hfirst := call_step (by simp) henabled hdisable
  have hsecond := call_step (s := s.setTable table₁) (by simp) henabled₁ hremove
  have hunknown : table'.poller.hasChannel c' = false := by
    rw [← Bool.not_eq_true, ChannelTable.hasChannel_iff hinv' hc']
    exact fun hne => hne hnew
  refine ⟨(s.setTable table₁).setTable table', ?_, ⟨c', hc', hunknown⟩, hothers, ?_⟩
  . exact LTS.run_cons hfirst (LTS.run_cons hsecond rfl)
  . intro s'' hs''
    have hboth : s''.table.Inv ∧ Out addr s.dispatch.activeChannels s'' := by
      refine hs''.invariant (fun s'' => s''.table.Inv ∧ Out addr s.dispatch.activeChannels s'') ?_ ?_
      . rintro _ rfl
        refine ⟨hinv', ?_, fun _ => List.suffix_refl _⟩
        intro fd events hentry
        obtain ⟨d, hd, _, _, hindex⟩ := hinv'.of_entry hentry
        rw [hc', Option.some.injEq] at hd
        rw [← hd, hnew] at hindex
        cases hindex
      . rintro s₁ a s₂ ⟨hinv₁, hout₁⟩ ⟨hobey, hquiet⟩ hstep
        exact ⟨inv_step hinv₁ hobey hstep, hout₁.step hinv₁ hobey hquiet hstep⟩
    exact ⟨hboth.2.absent, hboth.2.active⟩

-- a channel that waits for its turn in a batch
def reported : Polling :=
  (system.run initial
    [.loop (.call (.new 1 5 [.read])), .loop (.call (.enableReading 1)), .poll [(5, EPOLLIN)]]).get rfl

theorem reachable_reported {ok : Polling → Label → Prop} (hnew : ok initial (.loop (.call (.new 1 5 [.read]))))
    (henable : ∀ s, s.table = ChannelTable.created → ok s (.loop (.call (.enableReading 1))))
    (hpoll : ∀ s, s.table = ChannelTable.registered → ok s (.poll [(5, EPOLLIN)]))
    : system.ReachableBy ok reported := by
  have hcreated : system.ReachableBy ok { initial with dispatch.table := .created } :=
    .step (.init rfl) hnew rfl
  have hregistered : system.ReachableBy ok { initial with dispatch.table := .registered } :=
    .step hcreated (henable _ rfl) rfl
  exact .step hregistered (hpoll _ rfl) rfl

theorem obeys_created (s : Polling) (hs : s.table = ChannelTable.created)
    : s.CallersObey (.loop (.call (.enableReading 1))) := by
  have hempty : ChannelTable.empty.Only 1 := fun _ _ => rfl
  have honly : ChannelTable.created.Only 1 := hempty.step (a := .new 1 5 [.read]) rfl rfl
  unfold CallersObey
  rw [hs]
  exact honly.obeys _

theorem obeying_reported : system.ReachableBy CallersObey reported :=
  reachable_reported trivial obeys_created fun _ _ => trivial

theorem polls_go_through_reported
    : ∃ s', system.run reported [.loop .handleEvent, .poll [(5, EPOLLHUP)]] = some s'
        ∧ s'.dispatch.activeChannels.length = 1 := by
  have hhandle : system.step reported (.loop .handleEvent) = some _ := rfl
  have hobey : reported.CallersObey (.loop .handleEvent) := trivial
  have hs := obeying_reported.step hobey hhandle
  obtain ⟨s', hpoll, _, hlength, _⟩ := (polls_go_through _ hs).2 [(5, EPOLLHUP)] rfl
  exact ⟨s', LTS.run_cons hhandle (LTS.run_cons hpoll rfl), hlength⟩

-- 16 reports would fill the vector, and one does not
theorem events_bounded_reported
    : (∃ k, reported.events_ = EPollPoller.kInitEventListSize * 2 ^ k)
        ∧ reported.events_ ≤ max EPollPoller.kInitEventListSize (2 * 1)
        ∧ ∀ a s', system.step reported a = some s' →
          s'.events_ = if reported.fills a then 32 else 16 := by
  have hone : ∀ s : Polling, (∀ fd, (s.table.poller.epoll fd).isSome = true → fd = 5) → s.WatchesAtMost 1 := by
    intro s hs fds hnodup hall
    match fds with
    | [] | [_] => simp
    | fd :: other :: _ =>
      have heq : fd = other := (hs fd (hall fd (by simp))).trans (hs other (hall other (by simp))).symm
      simp [heq] at hnodup
  have hempty : ∀ fd, fd ≠ 5 → ChannelTable.registered.poller.epoll fd = none := by
    intro fd hne
    exact Function.update_of_ne hne ..
  refine events_bounded 1 reported (reachable_reported ?_ ?_ ?_)
  . refine hone _ fun fd hsome => ?_
    cases hsome
  . intro s hs
    refine hone s fun fd hsome => ?_
    rw [hs] at hsome
    cases hsome
  . intro s hs
    refine hone s fun fd hsome => ?_
    by_contra hne
    rw [hs, hempty fd hne] at hsome
    cases hsome

-- it is given up while it waits, and stays in the batch
theorem detached_reported
    : ∃ s', system.run reported [.loop (.call (.disableAll 1)), .loop (.call (.remove 1))] = some s'
        ∧ s'.dispatch.activeChannels = [1]
        ∧ ∀ s'', (system.startingAt s').ReachableBy (fun s a => s.CallersObey a ∧ updates 1 a = false) s'' →
          1 ∈ s''.dispatch.activeChannels → s''.dispatch.activeChannels <:+ [1] := by
  have hobey : reported.CallersObey (.loop (.call (.disableAll 1))) := by
    intro c hc hindex
    cases hc
    cases hindex
  obtain ⟨s', hrun, _, _, hout⟩ := detached reported obeying_reported 1 _ rfl hobey
  have heq : system.run reported [.loop (.call (.disableAll 1)), .loop (.call (.remove 1))] = some _ := rfl
  refine ⟨s', hrun, ?_, fun s'' hs'' => (hout s'' hs'').2⟩
  rw [hrun, Option.some.injEq] at heq
  rw [heq]
  rfl

end Polling

end MyMuduo
