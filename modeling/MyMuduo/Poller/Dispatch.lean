import Mathlib.Data.List.Nodup
import MyMuduo.Poller.SwitchOff

/-!
This module contains the iterations of a loop over the channels that the poller reports, and which of the
reported masks run no callback.
-/

namespace MyMuduo

namespace Channel

/--
`tied` says whether `tie` has been called, and `alive` whether `tie_.lock()` finds the object.
-/
def handleEvent (tied alive : Bool) (c : Channel) : List Callback :=
  if tied then
    if alive then c.handleEventWithGuard else []
  else
    c.handleEventWithGuard

-- what a channel subscribes to, with all its callbacks
def subscribed : Events :=
  kReadEvent ||| kWriteEvent

-- what the kernel reports for these events: the last two are reported unasked
def reportable (events : Events) : Events :=
  events ||| EPOLLERR ||| EPOLLHUP

/--
No bit but those of `mask` is set.
-/
def Within (events mask : Events) : Prop :=
  events &&& mask = events

instance (events mask : Events) : Decidable (Within events mask) :=
  inferInstanceAs (Decidable (_ = _))

variable {events mask : Events}

theorem Within.reportable {revents : Events} (h : Within revents (reportable events))
    (hevents : Within events mask) : Within revents (Channel.reportable mask) := by
  unfold Within Channel.reportable at *
  ext i hi
  have hbit := congrArg (fun x : Events => x[i]) h
  have hbit' := congrArg (fun x : Events => x[i]) hevents
  simp only [BitVec.getElem_and, BitVec.getElem_or] at hbit hbit' ⊢
  cases hr : revents[i] with
  | false => rfl
  | true =>
    rw [hr, Bool.true_and] at hbit
    rw [Bool.true_and]
    cases he : events[i] with
    | false =>
      rw [he] at hbit
      cases hm : mask[i] with
      | false => exact hbit
      | true => simp
    | true =>
      rw [he, Bool.true_and] at hbit'
      simp [hbit']

-- the events of a channel after a call
theorem Within.call (h : Within events subscribed) (a : ChannelTable.Label)
    : Within ((a.events events).getD events) subscribed := by
  unfold Within at *
  cases a with
  | new | remove => exact h
  | enableReading addr =>
    have hread : kReadEvent &&& subscribed = kReadEvent := by decide
    simp only [ChannelTable.Label.events, Option.getD_some]
    rw [BitVec.and_or_distrib_right, h, hread]
  | enableWriting addr =>
    have hwrite : kWriteEvent &&& subscribed = kWriteEvent := by decide
    simp only [ChannelTable.Label.events, Option.getD_some]
    rw [BitVec.and_or_distrib_right, h, hwrite]
  | disableReading addr =>
    simp only [ChannelTable.Label.events, Option.getD_some]
    rw [BitVec.and_assoc, BitVec.and_comm (~~~kReadEvent), ← BitVec.and_assoc, h]
  | disableWriting addr =>
    simp only [ChannelTable.Label.events, Option.getD_some]
    rw [BitVec.and_assoc, BitVec.and_comm (~~~kWriteEvent), ← BitVec.and_assoc, h]
  | disableAll addr =>
    have hnone : kNoneEvent &&& subscribed = kNoneEvent := by decide
    exact hnone

/--
The dispatch tests four of the five bits that can be reported.
-/
theorem handleEventWithGuard_eq_nil_iff {c : Channel} (hset : ∀ callback, callback ∈ c.callbacks)
    : c.handleEventWithGuard = []
        ↔ c.revents &&& EPOLLIN = 0 ∧ c.revents &&& EPOLLOUT = 0 ∧ c.revents &&& EPOLLERR = 0
          ∧ c.revents &&& EPOLLHUP = 0 := by
  unfold handleEventWithGuard
  simp only [List.contains_iff_mem.mpr (hset _), Bool.and_true, List.append_eq_nil_iff, ite_eq_right_iff,
    List.cons_ne_nil, imp_false, Bool.and_eq_true, decide_eq_true_eq, ne_eq, not_and, not_not]
  constructor
  . rintro ⟨⟨⟨hclose, herr⟩, hin⟩, hout⟩
    refine ⟨hin, hout, herr, ?_⟩
    by_contra hhup
    exact hclose hhup hin
  . rintro ⟨hin, hout, herr, hhup⟩
    exact ⟨⟨⟨fun hclose => absurd hhup hclose, herr⟩, hin⟩, hout⟩

theorem eq_pri_of_within {revents : Events} (h : Within revents (reportable subscribed)) (hin : revents &&& EPOLLIN = 0)
    (hout : revents &&& EPOLLOUT = 0) (herr : revents &&& EPOLLERR = 0) (hhup : revents &&& EPOLLHUP = 0)
    : revents = 0 ∨ revents = EPOLLPRI := by
  have hmask : reportable subscribed = EPOLLIN ||| EPOLLPRI ||| EPOLLOUT ||| EPOLLERR ||| EPOLLHUP := by decide
  have hpri : EPOLLPRI = BitVec.twoPow 32 1 := by decide
  unfold Within at h
  rw [hmask] at h
  simp only [BitVec.and_or_distrib_left, hin, hout, herr, hhup] at h
  rw [hpri, BitVec.and_twoPow] at h
  rw [hpri]
  split at h
  . right
    rw [← h]
    decide
  . left
    rw [← h]
    decide

/--
Of the masks that can be reported only the one for urgent data alone runs no callback.
-/
theorem handleEvent_ne_nil_iff {tied alive : Bool} {c : Channel} (hset : ∀ callback, callback ∈ c.callbacks)
    (halive : alive = true) (hsome : c.revents ≠ 0) (hwithin : Within c.revents (reportable subscribed))
    : c.handleEvent tied alive ≠ [] ↔ c.revents ≠ EPOLLPRI := by
  have heq : c.handleEvent tied alive = c.handleEventWithGuard := by
    rw [handleEvent, halive]
    simp
  rw [heq]
  apply not_congr
  rw [handleEventWithGuard_eq_nil_iff hset]
  constructor
  . rintro ⟨hin, hout, herr, hhup⟩
    exact (eq_pri_of_within hwithin hin hout herr hhup).resolve_left hsome
  . intro hpri
    rw [hpri]
    decide

end Channel

/--
A loop with its channel objects, which are numbered here: the number stands for the address, and none is used
twice. `reports` are those of the last `epoll_wait`, `activeChannels` the channels whose turn is still to come
in this iteration, and `invoked` are the callbacks that the last `handleEvent` has run.
-/
structure Dispatch where
  table : ChannelTable
  tied : Addr → Bool
  alive : Addr → Bool
  reports : List (Events × Addr)
  activeChannels : List Addr
  invoked : List Callback

namespace Dispatch

/--
An iteration of `loop` is a `poll` and one `handleEvent` for each active channel. The callbacks, the pending
functors and the user call the channels, tie them and give up the objects to which they are tied.
-/
inductive Label where
  | poll (reports : List (Events × Addr))
  | handleEvent
  | call (a : ChannelTable.Label)
  | tie (addr : Addr)
  | release (addr : Addr)
  deriving DecidableEq, Repr

def setRevents (s : Dispatch) (addr : Addr) (c : Channel) (events : Events) : Dispatch :=
  { s with table.channels := Function.update s.table.channels addr (some { c with revents := events }) }

-- `none`: a pointer that refers to no channel
def fillActiveChannels (s : Dispatch) : List (Events × Addr) → Option Dispatch
  | [] => some s
  | (events, addr) :: reports =>
    (s.table.channels addr).bind fun c =>
      let s := s.setRevents addr c events
      { s with activeChannels := s.activeChannels ++ [addr] }.fillActiveChannels reports

-- a report is not empty, and has no bits but those that the channel asks for and the two that come unasked
def reportable (s : Dispatch) (report : Events × Addr) : Bool :=
  report.1 ≠ 0
    && (s.table.channels report.2).any fun c => Channel.Within report.1 (Channel.reportable c.events)

def enabled (s : Dispatch) : Label → Bool
  -- `epoll_wait` reports a channel once
  | .poll reports => s.activeChannels.isEmpty && reports.all s.reportable && (reports.map Prod.snd).Nodup
  | .handleEvent => !s.activeChannels.isEmpty
  | .call (.new addr fd callbacks) =>
    s.table.enabled (.new addr fd callbacks) && (s.table.channels addr).isNone
  | .call a => s.table.enabled a
  | .tie _ | .release _ => true

def next (s : Dispatch) : Label → Option Dispatch
  | .poll reports => { s with reports := reports, activeChannels := [] }.fillActiveChannels reports
  | .handleEvent =>
    match s.activeChannels with
    | [] => none
    | addr :: rest =>
      (s.table.channels addr).map fun c =>
        { s with activeChannels := rest, invoked := c.handleEvent (s.tied addr) (s.alive addr) }
  | .call a => (s.table.next a).map fun table => { s with table := table }
  | .tie addr => some { s with tied := Function.update s.tied addr true }
  | .release addr => some { s with alive := Function.update s.alive addr false }

def initial : Dispatch where
  table := .empty
  tied _ := false
  alive _ := true
  reports := []
  activeChannels := []
  invoked := []

def system : LTS Dispatch Label :=
  .guarded (fun s => s = initial) enabled next

/--
The channels ask for no other events than those they have callbacks for, and an active channel has been
reported with the mask in it.
-/
structure Inv (s : Dispatch) : Prop where
  subscribed : ∀ addr c, s.table.channels addr = some c → Channel.Within c.events Channel.subscribed
  marked : ∀ addr ∈ s.activeChannels, ∃ c, s.table.channels addr = some c ∧ (c.revents, addr) ∈ s.reports
  once : (s.reports.map Prod.snd).Nodup
  reports : ∀ events addr, (events, addr) ∈ s.reports →
    events ≠ 0 ∧ Channel.Within events (Channel.reportable Channel.subscribed)

variable {s s' : Dispatch} {a : Label}

/--
What the loop over the reports has done.
-/
structure Filled (s : Dispatch) (reports : List (Events × Addr)) (s' : Dispatch) : Prop where
  active : s'.activeChannels = s.activeChannels ++ reports.map Prod.snd
  kept_reports : s'.reports = s.reports
  marked : ∀ events addr, (events, addr) ∈ reports → ∃ c, s'.table.channels addr = some c ∧ c.revents = events
  others : ∀ addr, addr ∉ reports.map Prod.snd → s'.table.channels addr = s.table.channels addr
  kept : ∀ addr c', s'.table.channels addr = some c' → ∃ c, s.table.channels addr = some c ∧ c'.events = c.events

theorem filled (reports : List (Events × Addr)) (hnodup : (reports.map Prod.snd).Nodup)
    (h : s.fillActiveChannels reports = some s') : s.Filled reports s' := by
  induction reports generalizing s with
  | nil =>
    simp only [fillActiveChannels, Option.some.injEq] at h
    subst h
    exact ⟨by simp, rfl, by simp, fun _ _ => rfl, fun addr c hc => ⟨c, hc, rfl⟩⟩
  | cons report reports ih =>
    obtain ⟨events, addr⟩ := report
    rw [List.map_cons, List.nodup_cons] at hnodup
    simp only [fillActiveChannels, Option.bind_eq_some_iff] at h
    obtain ⟨c, hc, hrest⟩ := h
    have hfilled := ih hnodup.2 hrest
    refine ⟨?_, hfilled.kept_reports, ?_, ?_, ?_⟩
    . rw [hfilled.active]
      simp [setRevents]
    . intro events' addr' hmem
      rw [List.mem_cons] at hmem
      cases hmem with
      | inl heq =>
        cases heq
        refine ⟨{ c with revents := events }, ?_, rfl⟩
        rw [hfilled.others addr hnodup.1]
        exact Function.update_self ..
      | inr hmem => exact hfilled.marked events' addr' hmem
    . intro other hnot
      rw [List.map_cons, List.mem_cons, not_or] at hnot
      rw [hfilled.others other hnot.2]
      exact Function.update_of_ne hnot.1 ..
    . intro other c' hc'
      obtain ⟨d, hd, hevents⟩ := hfilled.kept other c' hc'
      obtain ⟨rfl, rfl⟩ | ⟨_, hd⟩ := ChannelTable.update_cases hd
      . exact ⟨c, hc, hevents⟩
      . exact ⟨d, hd, hevents⟩

theorem Inv.poll {reports : List (Events × Addr)} (h : s.Inv) (henabled : s.enabled (.poll reports) = true)
    (hnext : s.next (.poll reports) = some s') : s'.Inv := by
  simp only [enabled, Bool.and_eq_true, List.all_eq_true, decide_eq_true_eq] at henabled
  obtain ⟨⟨_, hreportable⟩, hnodup⟩ := henabled
  have hfilled := filled reports hnodup hnext
  refine ⟨?_, ?_, ?_, ?_⟩
  . intro addr c' hc'
    obtain ⟨c, hc, hevents⟩ := hfilled.kept addr c' hc'
    rw [hevents]
    exact h.subscribed addr c hc
  . intro addr hactive
    rw [hfilled.active, List.nil_append, List.mem_map] at hactive
    obtain ⟨⟨events, _⟩, hmem, rfl⟩ := hactive
    obtain ⟨c, hc, hrevents⟩ := hfilled.marked events _ hmem
    refine ⟨c, hc, ?_⟩
    rw [hfilled.kept_reports, hrevents]
    exact hmem
  . rw [hfilled.kept_reports]
    exact hnodup
  . intro events addr hmem
    rw [hfilled.kept_reports] at hmem
    have hreport := hreportable _ hmem
    simp only [reportable, Bool.and_eq_true, decide_eq_true_eq, Option.any_eq_true] at hreport
    obtain ⟨hsome, c, hc, hwithin⟩ := hreport
    exact ⟨hsome, hwithin.reportable (h.subscribed addr c hc)⟩

theorem Inv.call {b : ChannelTable.Label} (h : s.Inv) (henabled : s.enabled (.call b) = true)
    (hnext : s.next (.call b) = some s') : s'.Inv := by
  simp only [next, Option.map_eq_some_iff] at hnext
  obtain ⟨table, hcall, rfl⟩ := hnext
  obtain ⟨c', hchannels, hcases⟩ := ChannelTable.channels_next hcall
  refine ⟨?_, ?_, h.once, h.reports⟩
  . intro addr d hd
    dsimp only at hd
    rw [hchannels] at hd
    obtain ⟨_, rfl⟩ | ⟨_, hd⟩ := ChannelTable.update_cases hd
    . obtain ⟨_, _, _, rfl⟩ | ⟨c, _, hc, rfl, _⟩ := hcases
      . have hnone : (0 : Events) &&& Channel.subscribed = 0 := by decide
        exact hnone
      . exact (h.subscribed _ c hc).call b
    . exact h.subscribed addr d hd
  . intro addr hactive
    obtain ⟨d, hd, hmem⟩ := h.marked addr hactive
    dsimp only
    rw [hchannels]
    by_cases heq : addr = b.addr
    . subst heq
      refine ⟨c', Function.update_self .., ?_⟩
      obtain ⟨fd, callbacks, hnew, _⟩ | ⟨c, _, hc, rfl, _⟩ := hcases
      -- no number is used twice
      . rw [hnew] at henabled
        simp only [enabled, Bool.and_eq_true, Option.isNone_iff_eq_none] at henabled
        rw [henabled.2] at hd
        cases hd
      . rw [hd, Option.some.injEq] at hc
        subst hc
        exact hmem
    . rw [Function.update_of_ne heq]
      exact ⟨d, hd, hmem⟩

theorem Inv.step (h : s.Inv) (hstep : system.step s a = some s') : s'.Inv := by
  obtain ⟨henabled, hnext⟩ := LTS.guarded_step.mp hstep
  cases a with
  | poll reports => exact h.poll henabled hnext
  | handleEvent =>
    simp only [next] at hnext
    split at hnext
    . cases hnext
    . next addr rest hactive =>
      simp only [Option.map_eq_some_iff] at hnext
      obtain ⟨c, hc, rfl⟩ := hnext
      refine ⟨h.subscribed, ?_, h.once, h.reports⟩
      intro other hmem
      exact h.marked other (hactive ▸ List.mem_cons_of_mem _ hmem)
  | call b => exact h.call henabled hnext
  | tie addr =>
    simp only [next, Option.some.injEq] at hnext
    subst hnext
    exact ⟨h.subscribed, h.marked, h.once, h.reports⟩
  | release addr =>
    simp only [next, Option.some.injEq] at hnext
    subst hnext
    exact ⟨h.subscribed, h.marked, h.once, h.reports⟩

theorem inv_reachable (h : system.Reachable s) : s.Inv := by
  refine LTS.Reachable.invariant Inv ?_ (fun _ _ _ hinv hstep => hinv.step hstep) h
  rintro _ rfl
  refine ⟨?_, ?_, ?_, ?_⟩
  . intro addr c hc
    cases hc
  . intro addr hactive
    cases hactive
  . exact List.nodup_nil
  . intro events addr hmem
    cases hmem

/--
In every iteration, whatever the callbacks before it have done, the channel of a live object with all callbacks
runs one of them unless the mask that has been reported for it is that of urgent data alone.
-/
theorem handled_iff (s : Dispatch) (h : system.Reachable s) (addr : Addr) (rest : List Addr)
    (hactive : s.activeChannels = addr :: rest) (c : Channel) (hc : s.table.channels addr = some c)
    (hset : ∀ callback, callback ∈ c.callbacks) (halive : s.alive addr = true) (events : Events)
    (hreport : (events, addr) ∈ s.reports) (s' : Dispatch) (hstep : system.step s .handleEvent = some s')
    : s'.invoked ≠ [] ↔ events ≠ EPOLLPRI := by
  have hinv := inv_reachable h
  obtain ⟨d, hd, hmarked⟩ := hinv.marked addr (hactive ▸ List.mem_cons_self)
  rw [hc, Option.some.injEq] at hd
  subst hd
  have hrevents : c.revents = events :=
    congrArg Prod.fst (List.inj_on_of_nodup_map hinv.once hmarked hreport rfl)
  obtain ⟨_, hnext⟩ := LTS.guarded_step.mp hstep
  simp only [next, hactive, hc, Option.map_some, Option.some.injEq] at hnext
  subst hnext
  obtain ⟨hsome, hwithin⟩ := hinv.reports events addr hreport
  rw [← hrevents] at hsome hwithin ⊢
  exact Channel.handleEvent_ne_nil_iff hset halive hsome hwithin

-- the channel of an established connection
def connected : Dispatch :=
  (system.run initial
    [.call (.new 1 7 [.read, .write, .close, .error]), .tie 1, .call (.enableReading 1)]).get rfl

theorem reachable_connected : system.Reachable connected := by
  have hinit : system.Reachable initial := .init rfl
  exact hinit.run (Option.some_get _).symm

theorem handled_iff_reading
    : ∃ s s', system.run connected [.poll [(EPOLLIN ||| EPOLLPRI, 1)]] = some s
        ∧ system.step s .handleEvent = some s' ∧ s'.invoked ≠ [] := by
  have hpoll : system.run connected [.poll [(EPOLLIN ||| EPOLLPRI, 1)]] = some _ := rfl
  refine ⟨_, _, hpoll, rfl, ?_⟩
  refine (handled_iff _ (reachable_connected.run hpoll) 1 [] rfl _ rfl ?_ rfl (EPOLLIN ||| EPOLLPRI) ?_ _ rfl).mpr ?_
  . intro callback
    cases callback <;> decide
  . exact List.mem_singleton.mpr rfl
  . decide

/--
Urgent data alone is reported for a connection that reads, no callback runs, and the next iteration finds the
same state.
-/
theorem urgent_ignored
    : ∃ s s', system.Reachable s ∧ s.activeChannels = [1] ∧ s.reports = [(EPOLLPRI, 1)] ∧ s.alive 1 = true
        ∧ (∃ c, s.table.channels 1 = some c ∧ c.events = EPOLLIN ||| EPOLLPRI
          ∧ ∀ callback, callback ∈ c.callbacks)
        ∧ system.step s .handleEvent = some s' ∧ s'.invoked = []
        ∧ (system.step s' (.poll [(EPOLLPRI, 1)])).isSome = true := by
  have hpoll : system.run connected [.poll [(EPOLLPRI, 1)]] = some _ := rfl
  refine ⟨_, _, reachable_connected.run hpoll, rfl, rfl, rfl, ⟨_, rfl, rfl, ?_⟩, rfl, rfl, rfl⟩
  intro callback
  cases callback <;> decide

end Dispatch

end MyMuduo
