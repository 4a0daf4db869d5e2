import MyMuduo.Poller.Channels

/-!
This module contains what becomes of a channel that is switched off: `updateChannel` takes it out of the
interest set only if it is in there, and otherwise puts it in with an empty mask.
-/

namespace MyMuduo

namespace EPollPoller

variable {p p' : EPollPoller} {c c' : Channel}

theorem channel_updateChannel (h : p.updateChannel c = some (p', c')) : ∃ index, c' = { c with index := index } := by
  unfold updateChannel at h
  split at h
  . simp only [Option.map_eq_some_iff, Prod.mk.injEq] at h
    obtain ⟨_, _, _, rfl⟩ := h
    exact ⟨_, rfl⟩
  . split at h
    . simp only [Option.map_eq_some_iff, Prod.mk.injEq] at h
      obtain ⟨_, _, _, rfl⟩ := h
      exact ⟨_, rfl⟩
    . simp only [Option.map_eq_some_iff, Prod.mk.injEq] at h
      obtain ⟨_, _, _, rfl⟩ := h
      exact ⟨_, rfl⟩

theorem channel_removeChannel (h : p.removeChannel c = some (p', c')) : c' = { c with index := .kNew } := by
  unfold removeChannel at h
  dsimp only at h
  split at h
  . simp only [Option.map_eq_some_iff, Prod.mk.injEq] at h
    obtain ⟨_, _, _, rfl⟩ := h
    rfl
  . simp only [Option.some.injEq, Prod.mk.injEq] at h
    exact h.2.symm

end EPollPoller

namespace ChannelTable

variable {s s' : ChannelTable} {a : Label} {addr : Addr} {c : Channel} {events : Events}

/--
The step calls `updateChannel` for a channel with an empty mask.
-/
def SwitchesOff (s : ChannelTable) (a : Label) (c : Channel) : Prop :=
  s.channels a.addr = some c ∧ a.events c.events = some Channel.kNoneEvent

/--
What is switched off is in use.
-/
def InUse (s : ChannelTable) (a : Label) : Prop :=
  ∀ c, s.SwitchesOff a c → c.index = .kAdded

-- all enabling and disabling calls are this one
theorem next_update (hc : s.channels a.addr = some c) (hevents : a.events c.events = some events)
    : s.next a = (s.poller.updateChannel { c with events := events }).map fun (poller, c) =>
        { poller := poller, channels := Function.update s.channels a.addr (some c) } := by
  cases a with
  | new addr fd callbacks => cases hevents
  | remove addr => cases hevents
  | enableReading | disableReading | enableWriting | disableWriting | disableAll =>
    simp only [Label.addr] at hc
    simp only [Label.events, Option.some.injEq] at hevents
    subst hevents
    simp only [next, call, hc, Option.bind_some]
    rfl

/--
What a step does to the channel objects: one is made, or one gets other events and another index, that of a
channel unknown to the poller if the step removes it.
-/
theorem channels_next (hnext : s.next a = some s')
    : ∃ c', s'.channels = Function.update s.channels a.addr (some c')
        ∧ ((∃ fd callbacks, a = .new a.addr fd callbacks ∧ c' = Channel.new a.addr fd callbacks)
          ∨ ∃ c index, s.channels a.addr = some c
            ∧ c' = { c with events := (a.events c.events).getD c.events, index := index }
            ∧ (a.events c.events = none → index = .kNew)) := by
  cases a with
  | new addr fd callbacks =>
    simp only [next, Option.some.injEq] at hnext
    subst hnext
    exact ⟨_, rfl, .inl ⟨fd, callbacks, rfl, rfl⟩⟩
  | remove addr =>
    simp only [next, call, Option.bind_eq_some_iff, Option.map_eq_some_iff] at hnext
    obtain ⟨c, hc, ⟨p', c'⟩, hremove, rfl⟩ := hnext
    rw [EPollPoller.channel_removeChannel hremove]
    exact ⟨_, rfl, .inr ⟨c, .kNew, hc, rfl, fun _ => rfl⟩⟩
  | enableReading | disableReading | enableWriting | disableWriting | disableAll =>
    simp only [next, call, Option.bind_eq_some_iff, Option.map_eq_some_iff] at hnext
    obtain ⟨c, hc, ⟨p', c'⟩, hupdate, rfl⟩ := hnext
    obtain ⟨index, rfl⟩ := EPollPoller.channel_updateChannel hupdate
    refine ⟨_, rfl, .inr ⟨c, index, hc, rfl, ?_⟩⟩
    intro hnone
    cases hnone

/--
The outcome of such a call: a channel that is in use leaves the interest set with its last event, and one that
is not in use enters it, with whatever mask.
-/
theorem updated (h : s.Inv) (hobey : s.CallersObey a) (hc : s.channels a.addr = some c)
    (hevents : a.events c.events = some events) (hnext : s.next a = some s')
    : ∃ c', s'.channels a.addr = some c' ∧ c'.fd = c.fd ∧ c'.events = events
        ∧ (if c.index = .kAdded ∧ events = Channel.kNoneEvent then
            c'.index = .kDelete ∧ s'.poller.epoll c.fd = none
          else
            c'.index = .kAdded ∧ s'.poller.epoll c.fd = some (events, a.addr)) := by
  have hnew : c.index = .kNew → s.Unused c.fd := by
    cases a with
    | new addr fd callbacks => cases hevents
    | remove | enableReading | disableReading | enableWriting | disableWriting | disableAll =>
      exact hobey c hc
  have hreflects := h.reflects hc hnew
  have haddr := h.addr _ c hc
  rw [next_update hc hevents, Option.map_eq_some_iff] at hnext
  obtain ⟨⟨p', c'⟩, hupdate, rfl⟩ := hnext
  refine ⟨c', Function.update_self .., ?_⟩
  cases hindex : c.index with
  | kNew =>
    have habsent : (s.poller.epoll c.fd).isSome = false := by
      simp [(hreflects.kNew hindex).2]
    rw [EPollPoller.updateChannel_kNew (c := { c with events := events }) hindex habsent, Option.some.injEq,
      Prod.mk.injEq] at hupdate
    obtain ⟨rfl, rfl⟩ := hupdate
    simp [EPollPoller.added, haddr]
  | kDelete =>
    have habsent : (s.poller.epoll c.fd).isSome = false := by
      simp [(hreflects.kDelete hindex).2]
    rw [EPollPoller.updateChannel_kDelete (c := { c with events := events }) hindex habsent,
      Option.some.injEq, Prod.mk.injEq] at hupdate
    obtain ⟨rfl, rfl⟩ := hupdate
    simp [EPollPoller.added, haddr]
  | kAdded =>
    have hpresent : (s.poller.epoll c.fd).isSome = true := by
      simp [(hreflects.kAdded hindex).2]
    rw [EPollPoller.updateChannel_kAdded (c := { c with events := events }) hindex hpresent] at hupdate
    by_cases hnone : events = Channel.kNoneEvent
    . subst hnone
      rw [if_pos (by simp [Channel.isNoneEvent]), Option.some.injEq, Prod.mk.injEq] at hupdate
      obtain ⟨rfl, rfl⟩ := hupdate
      simp [EPollPoller.deleted]
    . rw [if_neg (by simp [Channel.isNoneEvent, hnone]), Option.some.injEq, Prod.mk.injEq] at hupdate
      obtain ⟨rfl, rfl⟩ := hupdate
      simp [EPollPoller.added, haddr, hindex, hnone]

/--
No channel in use has an empty mask.
-/
def Listening (s : ChannelTable) : Prop :=
  ∀ addr c, s.channels addr = some c → c.index = .kAdded → c.events ≠ Channel.kNoneEvent

-- a step is such a call, or its channel is unknown to the poller afterwards
theorem updates_or_unknown (hnext : s.next a = some s')
    : (∃ c events, s.channels a.addr = some c ∧ a.events c.events = some events)
        ∨ ∃ c', s'.channels a.addr = some c' ∧ c'.index = .kNew := by
  obtain ⟨c', hchannels, hcases⟩ := channels_next hnext
  have hc' : s'.channels a.addr = some c' := by
    rw [hchannels]
    exact Function.update_self ..
  obtain ⟨_, _, _, rfl⟩ | ⟨c, index, hc, rfl, hremoved⟩ := hcases
  . exact .inr ⟨_, hc', rfl⟩
  . cases hevents : a.events c.events with
    | some events => exact .inl ⟨c, events, hc, hevents⟩
    | none => exact .inr ⟨_, hc', hremoved hevents⟩

theorem Listening.step (h : s.Listening) (hinv : s.Inv) (hobey : s.CallersObey a) (hok : s.InUse a)
    (henabled : s.enabled a = true) (hnext : s.next a = some s') : s'.Listening := by
  obtain ⟨s₁, hnext₁, _, hothers, _⟩ := hinv.step hobey henabled
  rw [hnext, Option.some.injEq] at hnext₁
  subst hnext₁
  intro addr c' hc' hindex
  by_cases hother : addr = a.addr
  . subst hother
    obtain ⟨c, events, hc, hevents⟩ | ⟨c'', hc'', hunknown⟩ := updates_or_unknown hnext
    . obtain ⟨c'', hc'', _, hevents', houtcome⟩ := updated hinv hobey hc hevents hnext
      rw [hc', Option.some.injEq] at hc''
      subst hc''
      rw [hevents']
      rintro rfl
      rw [if_pos ⟨hok c ⟨hc, hevents⟩, rfl⟩, hindex] at houtcome
      cases houtcome.1
    . rw [hc', Option.some.injEq] at hc''
      subst hc''
      rw [hunknown] at hindex
      cases hindex
  . rw [hothers.channels addr hother] at hc'
    exact h addr c' hc' hindex

theorem listening_reachable (h : system.ReachableBy (fun s a => s.CallersObey a ∧ s.InUse a) s) : s.Listening := by
  induction h with
  | init hinit =>
    cases hinit
    intro addr c hc
    cases hc
  | step hs hok hstep ih =>
    obtain ⟨henabled, hnext⟩ := LTS.guarded_step.mp hstep
    have hinv := inv_reachable (hs.weaken fun _ _ hok => hok.1)
    exact ih.step hinv hok.1 hok.2 henabled hnext

theorem absent_of_off (h : s.Inv) (hlistening : s.Listening) (hc : s.channels addr = some c)
    (hnone : c.events = Channel.kNoneEvent) (events : Events) : s.poller.epoll c.fd ≠ some (events, addr) := by
  cases hindex : c.index with
  | kNew => exact (h.not_registered hc hindex).2 events
  | kAdded => exact absurd hnone (hlistening addr c hc hindex)
  | kDelete =>
    rw [h.matches.absent addr c hc hindex]
    simp

theorem absent_iff (h : s.Inv) (hobey : s.CallersObey a) (hoff : s.SwitchesOff a c) (hnext : s.next a = some s')
    : s'.poller.epoll c.fd = none ↔ c.index = .kAdded := by
  obtain ⟨c', _, _, _, houtcome⟩ := updated h hobey hoff.1 hoff.2 hnext
  split at houtcome
  . next hadded => exact iff_of_true houtcome.2 hadded.1
  . next hnot =>
    have hindex : c.index ≠ .kAdded := fun hindex => hnot ⟨hindex, rfl⟩
    refine iff_of_false ?_ hindex
    rw [houtcome.2]
    simp

-- the second call finds the channel in the other of the two situations
theorem disableAll_twice {s'' : ChannelTable} (h : s.Inv) (hobey : s.CallersObey (.disableAll addr))
    (hc : s.channels addr = some c) (hfirst : system.step s (.disableAll addr) = some s')
    (hsecond : system.step s' (.disableAll addr) = some s'')
    : s''.poller.epoll c.fd = none ↔ s'.poller.epoll c.fd ≠ none := by
  obtain ⟨henabled, hnext⟩ := LTS.guarded_step.mp hfirst
  obtain ⟨_, hnext'⟩ := LTS.guarded_step.mp hsecond
  obtain ⟨s₁, hnext₁, hinv', _⟩ := h.step hobey henabled
  rw [hnext, Option.some.injEq] at hnext₁
  subst hnext₁
  obtain ⟨c', hc', hfd, _, houtcome⟩ := updated h hobey (a := .disableAll addr) hc rfl hnext
  have hobey' : s'.CallersObey (.disableAll addr) := by
    intro d hd hindex
    rw [hc', Option.some.injEq] at hd
    subst hd
    split at houtcome
    . simp [hindex] at houtcome
    . simp [hindex] at houtcome
  have hiff := absent_iff hinv' hobey' ⟨hc', rfl⟩ hnext'
  rw [hfd] at hiff
  rw [hiff]
  split at houtcome
  . simp [houtcome]
  . simp [houtcome]

/--
In every run in which only channels in use are switched off, a channel without events is not in the interest
set. In any run a call that leaves no event takes the descriptor out exactly if the channel is in use, so that
of two calls of `disableAll` exactly one leaves it in.
-/
theorem switched_off_iff (s : ChannelTable) (hs : system.ReachableBy CallersObey s)
    : (system.ReachableBy (fun s a => s.CallersObey a ∧ s.InUse a) s → ∀ addr c,
          s.channels addr = some c → c.events = Channel.kNoneEvent →
            ∀ events, s.poller.epoll c.fd ≠ some (events, addr))
        ∧ (∀ a c s', s.CallersObey a → s.SwitchesOff a c → system.step s a = some s' →
          (s'.poller.epoll c.fd = none ↔ c.index = .kAdded))
        ∧ ∀ addr c s' s'', s.CallersObey (.disableAll addr) → s.channels addr = some c →
          system.step s (.disableAll addr) = some s' → system.step s' (.disableAll addr) = some s'' →
          (s''.poller.epoll c.fd = none ↔ s'.poller.epoll c.fd ≠ none) := by
  have hinv := inv_reachable hs
  refine ⟨?_, ?_, ?_⟩
  . intro hok addr c hc hnone events
    exact absent_of_off hinv (listening_reachable hok) hc hnone events
  . intro a c s' hobey hoff hstep
    exact absent_iff hinv hobey hoff (LTS.guarded_step.mp hstep).2
  . intro addr c s' s'' hobey hc hfirst hsecond
    exact disableAll_twice hinv hobey hc hfirst hsecond

-- a table with one channel object
def Only (s : ChannelTable) (addr : Addr) : Prop :=
  ∀ other, other ≠ addr → s.channels other = none

theorem Only.obeys (h : s.Only addr) (a : Label) : s.CallersObey a := by
  have hothers : ∀ c, s.channels a.addr = some c → c.index = .kNew → s.Unused c.fd := by
    intro c hc hindex other d hd _
    have hone : ∀ other d, s.channels other = some d → other = addr := by
      intro other d hd
      by_contra hne
      rw [h other hne] at hd
      cases hd
    rw [hone _ c hc] at hc
    rw [hone other d hd, hc, Option.some.injEq] at hd
    exact hd ▸ hindex
  cases a with
  | new addr fd callbacks => trivial
  | remove | enableReading | disableReading | enableWriting | disableWriting | disableAll => exact hothers

theorem Only.step (h : s.Only addr) (ha : a.addr = addr) (hstep : system.step s a = some s') : s'.Only addr := by
  obtain ⟨_, hnext⟩ := LTS.guarded_step.mp hstep
  obtain ⟨c, hchannels, _⟩ := channels_next hnext
  subst ha
  intro other hne
  rw [hchannels, Function.update_of_ne hne]
  exact h other hne

def empty : ChannelTable where
  poller := .empty
  channels _ := none

theorem Only.reachable {as : List Label} (has : ∀ a ∈ as, a.addr = addr) (hs : system.ReachableBy CallersObey s)
    (h : s.Only addr) (hrun : system.run s as = some s') : system.ReachableBy CallersObey s' := by
  induction as generalizing s with
  | nil =>
    simp only [LTS.run, Option.some.injEq] at hrun
    exact hrun ▸ hs
  | cons a as ih =>
    simp only [LTS.run, Option.bind_eq_some_iff] at hrun
    obtain ⟨s₁, hstep, hrest⟩ := hrun
    rw [List.forall_mem_cons] at has
    exact ih has.2 (.step hs (h.obeys a) hstep) (h.step has.1 hstep) hrest

def created : ChannelTable :=
  (system.run empty [.new 1 5 [.read]]).get rfl

def registered : ChannelTable :=
  (system.run created [.enableReading 1]).get rfl

-- a channel that has been registered is switched off
def closedOnce : ChannelTable :=
  (system.run registered [.disableAll 1]).get rfl

theorem switched_off_iff_closedOnce
    : ∃ c, closedOnce.channels 1 = some c ∧ c.fd = 5 ∧ c.events = Channel.kNoneEvent
        ∧ ∀ events, closedOnce.poller.epoll 5 ≠ some (events, 1) := by
  have hnew : system.step empty (.new 1 5 [.read]) = some created := rfl
  have henable : system.step created (.enableReading 1) = some registered := rfl
  have hdisable : system.step registered (.disableAll 1) = some closedOnce := rfl
  have hempty : empty.Only 1 := fun _ _ => rfl
  have hcreated : created.Only 1 := hempty.step rfl hnew
  have hregistered : registered.Only 1 := hcreated.step rfl henable
  have hs : system.ReachableBy (fun s a => s.CallersObey a ∧ s.InUse a) closedOnce := by
    refine .step (.step (.step (.init rfl) ⟨hempty.obeys _, ?_⟩ hnew) ⟨hcreated.obeys _, ?_⟩ henable)
      ⟨hregistered.obeys _, ?_⟩ hdisable
    . rintro c ⟨_, hevents⟩
      cases hevents
    . rintro c ⟨hc, hevents⟩
      cases hc
      exact absurd (Option.some.inj hevents) (by decide)
    . rintro c ⟨hc, _⟩
      cases hc
      rfl
  exact ⟨_, rfl, rfl, rfl, (switched_off_iff closedOnce (hs.weaken fun _ _ hok => hok.1)).1 hs 1 _ rfl rfl⟩

def closedTwice : ChannelTable :=
  (system.run empty [.new 1 5 [.read], .enableReading 1, .disableAll 1, .disableAll 1]).get rfl

-- the channel of a listener that is destroyed before it has listened
def neverEnabled : ChannelTable :=
  (system.run empty [.new 1 5 [.read], .disableAll 1]).get rfl

/--
A second `disableAll` puts the descriptor back into the interest set, as the first one does for a channel that
was never enabled.
-/
theorem disableAll_adds
    : system.ReachableBy CallersObey closedTwice ∧ closedOnce.poller.epoll 5 = none
        ∧ closedTwice.poller.epoll 5 = some (Channel.kNoneEvent, 1)
        ∧ system.ReachableBy CallersObey neverEnabled
        ∧ neverEnabled.poller.epoll 5 = some (Channel.kNoneEvent, 1) := by
  have hempty : empty.Only 1 := fun _ _ => rfl
  refine ⟨?_, rfl, rfl, ?_, rfl⟩
  . exact hempty.reachable (by decide) (.init rfl) (Option.some_get _).symm
  . exact hempty.reachable (by decide) (.init rfl) (Option.some_get _).symm

end ChannelTable

end MyMuduo
