import MyMuduo.Poller.Basic

/-!
This module contains what the calls on a channel keep, and what they do to its entries in the poller.
-/

namespace MyMuduo

namespace EPollPoller

variable {p p' : EPollPoller} {c c' : Channel}

theorem updateChannel_cases (h : p.updateChannel c = some (p', c'))
    : c'.fd = c.fd ∧ c'.addr = c.addr ∧ c'.callbacks = c.callbacks ∧ c'.events = c.events
        ∧ (c.index = .kAdded → c.isNoneEvent = false → c'.index = .kAdded) := by
  unfold updateChannel at h
  split at h
  . next hindex =>
    simp only [Option.map_eq_some_iff, Prod.mk.injEq] at h
    obtain ⟨_, _, _, rfl⟩ := h
    refine ⟨rfl, rfl, rfl, rfl, ?_⟩
    simp
  . split at h
    . next hnone =>
      simp only [Option.map_eq_some_iff, Prod.mk.injEq] at h
      obtain ⟨_, _, _, rfl⟩ := h
      refine ⟨rfl, rfl, rfl, rfl, ?_⟩
      simp [hnone]
    . simp only [Option.map_eq_some_iff, Prod.mk.injEq] at h
      obtain ⟨_, _, _, rfl⟩ := h
      exact ⟨rfl, rfl, rfl, rfl, fun hindex _ => hindex⟩

theorem synced_updateChannel (hsynced : c.Synced p) (h : p.updateChannel c = some (p', c')) : c'.Synced p' := by
  obtain ⟨_, _, heq, hsynced', _⟩ := updateChannel_of_synced hsynced
  rw [h, Option.some.injEq, Prod.mk.injEq] at heq
  rw [heq.1, heq.2]
  exact hsynced'

/--
A change for the channel at `addr` on the descriptor `fd`: the other entries of the interest set are kept,
and this one is kept, removed, or that of the channel.
-/
structure Confined (p p' : EPollPoller) (fd : Fd) (addr : Addr) : Prop where
  others : ∀ other, other ≠ fd → p'.epoll other = p.epoll other
  own : p'.epoll fd = p.epoll fd ∨ p'.epoll fd = none ∨ ∃ events, p'.epoll fd = some (events, addr)

variable {p'' : EPollPoller} {fd : Fd} {addr : Addr}

theorem Confined.refl (p : EPollPoller) (fd : Fd) (addr : Addr) : Confined p p fd addr :=
  ⟨fun _ _ => rfl, .inl rfl⟩

theorem Confined.trans (h₁ : Confined p p' fd addr) (h₂ : Confined p' p'' fd addr) : Confined p p'' fd addr := by
  refine ⟨fun other hne => (h₂.others other hne).trans (h₁.others other hne), ?_⟩
  obtain heq | hown := h₂.own
  . rw [heq]
    exact h₁.own
  . exact .inr hown

theorem confined_update {operation : Operation} (h : p.update operation c = some p')
    : Confined p p' c.fd c.addr := by
  unfold update at h
  split at h
  . next hctl =>
    simp only [Option.some.injEq] at h
    subst h
    cases operation
    all_goals
      simp only [epollCtl] at hctl
      split at hctl
    all_goals
      simp only [reduceCtorEq, Option.some.injEq] at hctl
    all_goals
      subst hctl
      refine ⟨fun other hne => by simp [Function.update_of_ne hne], ?_⟩
      simp
  . split at h
    . simp only [Option.some.injEq] at h
      subst h
      exact ⟨fun _ _ => rfl, .inl rfl⟩
    . cases h

theorem confined_updateChannel (h : p.updateChannel c = some (p', c')) : Confined p p' c.fd c.addr := by
  unfold updateChannel at h
  split at h
  . simp only [Option.map_eq_some_iff, Prod.mk.injEq] at h
    obtain ⟨_, hupdate, rfl, _⟩ := h
    have hconfined := confined_update hupdate
    split at hconfined
    . exact ⟨hconfined.others, hconfined.own⟩
    . exact hconfined
  . split at h
    all_goals
      simp only [Option.map_eq_some_iff, Prod.mk.injEq] at h
      obtain ⟨_, hupdate, rfl, _⟩ := h
      exact confined_update hupdate

theorem confined_removeChannel (h : p.removeChannel c = some (p', c')) : Confined p p' c.fd c.addr := by
  unfold removeChannel at h
  dsimp only at h
  split at h
  . simp only [Option.map_eq_some_iff, Prod.mk.injEq] at h
    obtain ⟨_, hupdate, rfl, _⟩ := h
    have hconfined := confined_update hupdate
    exact ⟨hconfined.others, hconfined.own⟩
  . simp only [Option.some.injEq, Prod.mk.injEq] at h
    obtain ⟨rfl, _⟩ := h
    exact ⟨fun _ _ => rfl, .inl rfl⟩

theorem channels_update {operation : Operation} (h : p.update operation c = some p') : p'.channels = p.channels := by
  unfold update at h
  split at h
  . next hctl =>
    simp only [Option.some.injEq] at h
    subst h
    cases operation
    all_goals
      simp only [epollCtl] at hctl
      split at hctl
    all_goals
      simp only [reduceCtorEq, Option.some.injEq] at hctl
    all_goals
      subst hctl
      rfl
  . split at h
    . simp only [Option.some.injEq] at h
      subst h
      rfl
    . cases h

theorem channels_updateChannel (h : p.updateChannel c = some (p', c')) {other : Fd} (hne : other ≠ c.fd)
    : p'.channels other = p.channels other := by
  unfold updateChannel at h
  split at h
  . simp only [Option.map_eq_some_iff, Prod.mk.injEq] at h
    obtain ⟨_, hupdate, rfl, _⟩ := h
    rw [channels_update hupdate]
    split
    . exact Function.update_of_ne hne ..
    . rfl
  . split at h
    all_goals
      simp only [Option.map_eq_some_iff, Prod.mk.injEq] at h
      obtain ⟨_, hupdate, rfl, _⟩ := h
      rw [channels_update hupdate]

theorem channels_removeChannel (h : p.removeChannel c = some (p', c')) {other : Fd} (hne : other ≠ c.fd)
    : p'.channels other = p.channels other := by
  unfold removeChannel at h
  dsimp only at h
  split at h
  . simp only [Option.map_eq_some_iff, Prod.mk.injEq] at h
    obtain ⟨_, hupdate, rfl, _⟩ := h
    rw [channels_update hupdate]
    exact Function.update_of_ne hne ..
  . simp only [Option.some.injEq, Prod.mk.injEq] at h
    obtain ⟨rfl, _⟩ := h
    exact Function.update_of_ne hne ..

/--
What calls of `updateChannel` and `removeChannel` for one channel lead to.
-/
inductive Called (fd : Fd) (addr : Addr) (p : EPollPoller) : EPollPoller → Prop where
  | refl : Called fd addr p p
  | update {p₁ p' : EPollPoller} {c c' : Channel} : Called fd addr p p₁ → c.fd = fd → c.addr = addr →
    p₁.updateChannel c = some (p', c') → Called fd addr p p'
  | remove {p₁ p' : EPollPoller} {c c' : Channel} : Called fd addr p p₁ → c.fd = fd → c.addr = addr →
    p₁.removeChannel c = some (p', c') → Called fd addr p p'

theorem Called.trans (h₁ : Called fd addr p p') (h₂ : Called fd addr p' p'') : Called fd addr p p'' := by
  induction h₂ with
  | refl => exact h₁
  | update _ hfd haddr hupdate ih => exact .update ih hfd haddr hupdate
  | remove _ hfd haddr hremove ih => exact .remove ih hfd haddr hremove

theorem Called.confined (h : Called fd addr p p') : Confined p p' fd addr := by
  induction h with
  | refl => exact .refl p fd addr
  | update _ hfd haddr hupdate ih =>
    subst hfd haddr
    exact ih.trans (confined_updateChannel hupdate)
  | remove _ hfd haddr hremove ih =>
    subst hfd haddr
    exact ih.trans (confined_removeChannel hremove)

theorem Called.channels (h : Called fd addr p p') {other : Fd} (hne : other ≠ fd)
    : p'.channels other = p.channels other := by
  induction h with
  | refl => rfl
  | update _ hfd _ hupdate ih =>
    subst hfd
    exact (channels_updateChannel hupdate hne).trans ih
  | remove _ hfd _ hremove ih =>
    subst hfd
    exact (channels_removeChannel hremove hne).trans ih

end EPollPoller

namespace Channel

variable {p p' : EPollPoller} {c c' : Channel}

-- in the interest set for reading
def Registered (c : Channel) : Prop :=
  c.index = .kAdded ∧ c.isReading = true

/--
What the calls on a channel keep while it is in use.
-/
structure Kept (c : Channel) (p : EPollPoller) (c' : Channel) (p' : EPollPoller) : Prop where
  fd : c'.fd = c.fd
  addr : c'.addr = c.addr
  callbacks : c'.callbacks = c.callbacks
  synced : c.Synced p → c'.Synced p'
  registered : c.Registered → c'.Registered

theorem Kept.refl (c : Channel) (p : EPollPoller) : Kept c p c p :=
  ⟨rfl, rfl, rfl, id, id⟩

theorem Kept.trans {c₁ : Channel} {p₁ : EPollPoller} (h₁ : Kept c p c₁ p₁) (h₂ : Kept c₁ p₁ c' p')
    : Kept c p c' p' :=
  ⟨h₂.fd.trans h₁.fd, h₂.addr.trans h₁.addr, h₂.callbacks.trans h₁.callbacks,
    fun h => h₂.synced (h₁.synced h), fun h => h₂.registered (h₁.registered h)⟩

theorem isNoneEvent_of_isReading (h : c.isReading = true) : c.isNoneEvent = false := by
  simp only [isReading, decide_eq_true_eq, isNoneEvent, decide_eq_false_iff_not] at h ⊢
  intro hnone
  rw [hnone] at h
  exact h (by decide)

-- an update that leaves the bits for reading alone
theorem Kept.of_update {events : Events} (h : p.updateChannel { c with events := events } = some (p', c'))
    (hread : events &&& kReadEvent = c.events &&& kReadEvent) : Kept c p c' p' := by
  obtain ⟨hfd, haddr, hcallbacks, hevents, hadded⟩ := EPollPoller.updateChannel_cases h
  have hsynced : c.Synced p → c'.Synced p' := by
    intro hsynced
    have hsame : { c with events := events }.Synced p := hsynced
    exact EPollPoller.synced_updateChannel hsame h
  refine ⟨hfd, haddr, hcallbacks, hsynced, ?_⟩
  rintro ⟨hindex, hreading⟩
  have hreading' : { c with events := events }.isReading = true := by
    simpa only [isReading, hread] using hreading
  refine ⟨hadded hindex (isNoneEvent_of_isReading hreading'), ?_⟩
  simpa only [isReading, hevents] using hreading'

theorem kept_enableWriting (h : c.enableWriting p = some (p', c')) : Kept c p c' p' := by
  apply Kept.of_update h
  ext i
  have hbit : (kWriteEvent &&& kReadEvent)[i] = false := by
    have hzero : kWriteEvent &&& kReadEvent = 0 := by decide
    simp [hzero]
  simp only [BitVec.getElem_and, BitVec.getElem_or] at hbit ⊢
  rw [Bool.and_or_distrib_right, hbit, Bool.or_false]

theorem kept_disableWriting (h : c.disableWriting p = some (p', c')) : Kept c p c' p' := by
  apply Kept.of_update h
  have hmask : ~~~kWriteEvent &&& kReadEvent = kReadEvent := by decide
  rw [BitVec.and_assoc, hmask]

theorem enableReading_of_new (hindex : c.index = .kNew) (hevents : c.events = 0) (habsent : p.epoll c.fd = none)
    : ∃ p' c', c.enableReading p = some (p', c') ∧ c'.Synced p' ∧ c'.Registered ∧ c'.fd = c.fd := by
  have hnew : { c with events := c.events ||| kReadEvent }.index = .kNew := hindex
  have hisSome : (p.epoll c.fd).isSome = false := by
    rw [habsent]
    rfl
  refine ⟨_, { c with events := c.events ||| kReadEvent, index := .kAdded },
    EPollPoller.updateChannel_kNew hnew hisSome, ?_, ⟨rfl, ?_⟩, rfl⟩
  . simp [Synced, EPollPoller.added]
  . simp only [isReading, hevents]
    decide

theorem disableAll_of_synced (hsynced : c.Synced p)
    : ∃ p' c', c.disableAll p = some (p', c') ∧ c'.Synced p' ∧ c'.events = kNoneEvent ∧ c'.fd = c.fd
        ∧ c'.callbacks = c.callbacks := by
  have hnone : { c with events := kNoneEvent }.Synced p := hsynced
  obtain ⟨p', c', heq, hsynced', hframe⟩ := EPollPoller.updateChannel_of_synced hnone
  exact ⟨p', c', heq, hsynced', hframe.events, hframe.fd, hframe.callbacks⟩

/--
A channel in use is taken out of the interest set, and the poller keeps its entry in `channels_`.
-/
theorem disableAll_of_registered (hsynced : c.Synced p) (hindex : c.index = .kAdded)
    : ∃ p' c', c.disableAll p = some (p', c') ∧ c'.Synced p' ∧ c'.events = kNoneEvent
        ∧ c'.index = .kDelete ∧ p'.epoll c.fd = none ∧ c'.fd = c.fd ∧ c'.callbacks = c.callbacks := by
  have hpresent : (p.epoll c.fd).isSome = true := hsynced.mpr hindex
  have heq : c.disableAll p =
      some (EPollPoller.deleted p { c with events := kNoneEvent },
        { c with events := kNoneEvent, index := .kDelete }) := by
    have hadded : { c with events := kNoneEvent }.index = .kAdded := hindex
    unfold disableAll
    rw [EPollPoller.updateChannel_kAdded hadded hpresent]
    simp [isNoneEvent]
  refine ⟨_, _, heq, ?_, rfl, rfl, ?_, rfl, rfl⟩
  . simp [Synced, EPollPoller.deleted]
  . simp [EPollPoller.deleted]

/--
`remove` leaves no trace of the channel.
-/
theorem remove_of_synced (hsynced : c.Synced p)
    : ∃ p', c.remove p = some (p', { c with index := .kNew }) ∧ p'.channels c.fd = none
        ∧ p'.epoll c.fd = none := by
  unfold remove EPollPoller.removeChannel
  dsimp only
  split
  . next hindex =>
    have hpresent : (p.epoll c.fd).isSome = true := hsynced.mpr hindex
    simp only [EPollPoller.update, EPollPoller.epollCtl, hpresent, if_true, Option.map_some]
    refine ⟨_, rfl, ?_, ?_⟩ <;> simp
  . next hindex =>
    have habsent : p.epoll c.fd = none := by
      rw [← Option.not_isSome_iff_eq_none]
      exact hsynced.not.mpr hindex
    refine ⟨_, rfl, ?_, habsent⟩
    simp

end Channel

end MyMuduo
