import MyMuduo.Timer.Lemmas

/-!
This module contains who owns the `Timer` objects of a queue: the two sets together, or somebody
outside of them, namely a functor that is still to insert one or the batch that is being run.
-/

namespace MyMuduo

namespace TimerQueue

universe u

variable {φ : Type u} {q q' : TimerQueue φ} {outside : List Addr} {timer : Addr} {t : Timer φ}

/--
Every live timer is in both sets, under its own expiration and sequence, or it is one of `outside`.
-/
structure Owns (q : TimerQueue φ) (outside : List Addr) : Prop where
  timers : ∀ when_ timer, toLex (when_, timer) ∈ q.timers ↔
    ∃ t, q.heap timer = some t ∧ t.expiration = when_ ∧ timer ∉ outside
  activeTimers : ∀ timer sequence, toLex (timer, sequence) ∈ q.activeTimers ↔
    ∃ t, q.heap timer = some t ∧ t.sequence = sequence ∧ timer ∉ outside
  live : ∀ timer ∈ outside, ∃ t, q.heap timer = some t
  nodup : outside.Nodup

theorem Owns.congr (h : q.Owns outside) (htimers : q'.timers = q.timers)
    (hactive : q'.activeTimers = q.activeTimers) (hheap : q'.heap = q.heap) : q'.Owns outside := by
  constructor
  . rw [htimers, hheap]
    exact h.timers
  . rw [hactive, hheap]
    exact h.activeTimers
  . rw [hheap]
    exact h.live
  . exact h.nodup

theorem Owns.of_sameTimers (h : q.Owns outside) (hsame : SameTimers q q') : q'.Owns outside :=
  h.congr hsame.timers hsame.activeTimers hsame.heap

theorem Owns.perm {outside' : List Addr} (h : q.Owns outside) (hperm : outside.Perm outside')
    : q.Owns outside' := by
  constructor
  . simp only [← hperm.mem_iff]
    exact h.timers
  . simp only [← hperm.mem_iff]
    exact h.activeTimers
  . simp only [← hperm.mem_iff]
    exact h.live
  . exact hperm.nodup_iff.mp h.nodup

theorem Owns.new : (new : TimerQueue φ).Owns [] := by
  constructor <;> simp [TimerQueue.new]

theorem Owns.allocated (h : q.Owns outside) (hfree : q.heap timer = none) (t : Timer φ)
    : (q.allocated timer t).Owns (timer :: outside) := by
  constructor
  . intro when_ a
    by_cases heq : a = timer
    . subst heq
      simp [TimerQueue.allocated, h.timers, hfree]
    . simp [TimerQueue.allocated, h.timers, heq]
  . intro a sequence
    by_cases heq : a = timer
    . subst heq
      simp [TimerQueue.allocated, h.activeTimers, hfree]
    . simp [TimerQueue.allocated, h.activeTimers, heq]
  . intro a ha
    by_cases heq : a = timer
    . simp [TimerQueue.allocated, heq]
    . simpa [TimerQueue.allocated, heq] using h.live a (List.mem_of_ne_of_mem heq ha)
  . refine List.nodup_cons.mpr ⟨?_, h.nodup⟩
    intro hmem
    obtain ⟨t', ht'⟩ := h.live timer hmem
    simp [hfree] at ht'

theorem Owns.inserted (h : q.Owns (timer :: outside)) (ht : q.heap timer = some t)
    : (q.inserted timer t).Owns outside := by
  have hnotMem : timer ∉ outside := (List.nodup_cons.mp h.nodup).1
  constructor
  . intro when_ a
    by_cases heq : a = timer
    . subst heq
      simp [TimerQueue.inserted, h.timers, ht, hnotMem, eq_comm]
    . simp [TimerQueue.inserted, h.timers, heq]
  . intro a sequence
    by_cases heq : a = timer
    . subst heq
      simp [TimerQueue.inserted, h.activeTimers, ht, hnotMem, eq_comm]
    . simp [TimerQueue.inserted, h.activeTimers, heq]
  . intro a ha
    exact h.live a (List.mem_cons_of_mem _ ha)
  . exact (List.nodup_cons.mp h.nodup).2

theorem Owns.freed (h : q.Owns (timer :: outside)) : (q.freed timer).Owns outside := by
  have hnotMem : timer ∉ outside := (List.nodup_cons.mp h.nodup).1
  constructor
  . intro when_ a
    by_cases heq : a = timer
    . subst heq
      simp [TimerQueue.freed, h.timers]
    . simp [TimerQueue.freed, h.timers, heq]
  . intro a sequence
    by_cases heq : a = timer
    . subst heq
      simp [TimerQueue.freed, h.activeTimers]
    . simp [TimerQueue.freed, h.activeTimers, heq]
  . intro a ha
    have heq : a ≠ timer := by
      rintro rfl
      exact hnotMem ha
    simpa [TimerQueue.freed, heq] using h.live a (List.mem_cons_of_mem _ ha)
  . exact (List.nodup_cons.mp h.nodup).2

-- the object changes while it is outside
theorem Owns.updated (h : q.Owns outside) (hmem : timer ∈ outside) (t : Timer φ)
    : { q with heap := Function.update q.heap timer (some t) }.Owns outside := by
  constructor
  . intro when_ a
    by_cases heq : a = timer
    . subst heq
      simp [h.timers, hmem]
    . simp [h.timers, heq]
  . intro a sequence
    by_cases heq : a = timer
    . subst heq
      simp [h.activeTimers, hmem]
    . simp [h.activeTimers, heq]
  . intro a ha
    by_cases heq : a = timer
    . simp [heq]
    . simpa [heq] using h.live a ha
  . exact h.nodup

-- both sets without the timer `t` at the address `timer`
def erased (q : TimerQueue φ) (timer : Addr) (t : Timer φ) : TimerQueue φ :=
  { q with
      timers := q.timers.erase (toLex (t.expiration, timer))
      activeTimers := q.activeTimers.erase (toLex (timer, t.sequence)) }

theorem Owns.erased (h : q.Owns outside) (ht : q.heap timer = some t) (hnotMem : timer ∉ outside)
    : (q.erased timer t).Owns (timer :: outside) := by
  constructor
  . intro when_ a
    by_cases heq : a = timer
    . subst heq
      simp [TimerQueue.erased, h.timers, ht, hnotMem, eq_comm]
    . simp [TimerQueue.erased, h.timers, heq]
  . intro a sequence
    by_cases heq : a = timer
    . subst heq
      simp [TimerQueue.erased, h.activeTimers, ht, hnotMem, eq_comm]
    . simp [TimerQueue.erased, h.activeTimers, heq]
  . intro a ha
    cases List.mem_cons.mp ha with
    | inl heq => exact ⟨t, heq ▸ ht⟩
    | inr hmem => exact h.live a hmem
  . exact List.nodup_cons.mpr ⟨hnotMem, h.nodup⟩

-- what is left of a cancellation that names no timer in the sets
def canceling (q : TimerQueue φ) (timerId : TimerId) : TimerQueue φ :=
  if q.callingExpiredTimers then
    { q with cancelingTimers := q.cancelingTimers.insert (toLex (timerId.timer, timerId.sequence)) }
  else
    q

theorem cancelInLoop_cases {timerId : TimerId} (howns : q.Owns outside)
    (h : q.cancelInLoop timerId = some q')
    : (∃ t, q.heap timerId.timer = some t ∧ t.sequence = timerId.sequence ∧ timerId.timer ∉ outside
          ∧ q' = (q.erased timerId.timer t).freed timerId.timer)
        ∨ (toLex (timerId.timer, timerId.sequence) ∉ q.activeTimers ∧ q' = q.canceling timerId) := by
  rw [cancelInLoop_eq] at h
  dsimp only at h
  split at h
  . next hmem =>
    obtain ⟨t, ht, hsequence, hnotMem⟩ := (howns.activeTimers _ _).mp hmem
    rw [ht, Option.map_some, Option.some.injEq] at h
    refine .inl ⟨t, ht, hsequence, hnotMem, ?_⟩
    rw [← h, TimerQueue.erased, hsequence]
    rfl
  . next hnotMem =>
    refine .inr ⟨hnotMem, ?_⟩
    unfold canceling
    split at h
    . next hcalling =>
      rw [if_pos hcalling]
      exact (Option.some.inj h).symm
    . next hcalling =>
      rw [if_neg hcalling]
      exact (Option.some.inj h).symm

theorem canceling_eq (q : TimerQueue φ) (timerId : TimerId)
    : (q.canceling timerId).timers = q.timers ∧ (q.canceling timerId).activeTimers = q.activeTimers
        ∧ (q.canceling timerId).heap = q.heap ∧ (q.canceling timerId).numCreated = q.numCreated := by
  unfold canceling
  split
  . exact ⟨rfl, rfl, rfl, rfl⟩
  . exact ⟨rfl, rfl, rfl, rfl⟩

/-
The batch of `getExpired`.
-/

def addrs (batch : List Entry) : List Addr :=
  batch.map fun it => (ofLex it).2

-- pointers are below the sentry's
def Addressable (q : TimerQueue φ) : Prop :=
  ∀ timer t, q.heap timer = some t → timer < UINTPTR_MAX

theorem lt_sentry {when_ now : Timestamp} (h : timer < UINTPTR_MAX)
    : (toLex (when_, timer) : Entry) < toLex (now, UINTPTR_MAX) ↔ when_ ≤ now := by
  rw [Prod.Lex.toLex_lt_toLex, le_iff_lt_or_eq]
  simp [h]

structure ActiveErased (q q' : TimerQueue φ) (batch : List Entry) : Prop where
  timers : q'.timers = q.timers
  heap : q'.heap = q.heap
  numCreated : q'.numCreated = q.numCreated
  activeTimers : ∀ timer sequence, toLex (timer, sequence) ∈ q'.activeTimers ↔
    toLex (timer, sequence) ∈ q.activeTimers
      ∧ ∀ it ∈ batch, (ofLex it).2 = timer → ∀ t, q.heap timer = some t → t.sequence ≠ sequence

theorem eraseActive_eq_some {batch : List Entry} (h : q.eraseActive batch = some q')
    : ActiveErased q q' batch := by
  induction batch generalizing q with
  | nil =>
    simp only [eraseActive, Option.some.injEq] at h
    subst h
    constructor <;> simp
  | cons it batch ih =>
    simp only [eraseActive, Option.bind_eq_some_iff] at h
    obtain ⟨t, ht, hrest⟩ := h
    have herased := ih hrest
    refine ⟨herased.timers, herased.heap, herased.numCreated, ?_⟩
    intro timer sequence
    rw [herased.activeTimers]
    simp only [SortedSet.mem_erase, List.forall_mem_cons, ne_eq, EmbeddingLike.apply_eq_iff_eq, Prod.mk.injEq]
    have hhead : ((ofLex it).2 = timer → ∀ t, q.heap timer = some t → ¬t.sequence = sequence)
        ↔ ¬(timer = (ofLex it).2 ∧ sequence = t.sequence) := by
      constructor
      . rintro hne ⟨rfl, rfl⟩
        exact hne rfl t ht rfl
      . rintro hne rfl t' ht' rfl
        rw [ht, Option.some.injEq] at ht'
        exact hne ⟨rfl, ht' ▸ rfl⟩
    rw [hhead, and_assoc]

theorem mem_addrs {batch : List Entry} : timer ∈ addrs batch ↔ ∃ when_, toLex (when_, timer) ∈ batch := by
  unfold addrs
  rw [List.mem_map]
  constructor
  . rintro ⟨it, hit, rfl⟩
    exact ⟨(ofLex it).1, hit⟩
  . rintro ⟨when_, hmem⟩
    exact ⟨_, hmem, rfl⟩

theorem mem_addrs_of_suffix {todo expired : List Entry} (h : todo <:+ expired) (hmem : timer ∈ addrs todo)
    : timer ∈ addrs expired := by
  rw [mem_addrs] at *
  obtain ⟨when_, hit⟩ := hmem
  exact ⟨when_, h.mem hit⟩

theorem Owns.nodup_addrs (h : q.Owns outside) {batch : List Entry} (hsub : ∀ it ∈ batch, it ∈ q.timers)
    (hsorted : batch.Pairwise (· < ·)) : (addrs batch).Nodup := by
  unfold addrs
  rw [List.Nodup, List.pairwise_map]
  apply hsorted.imp_of_mem
  intro it it' hit hit' hlt haddr
  obtain ⟨t, ht, hwhen, _⟩ := (h.timers (ofLex it).1 (ofLex it).2).mp (hsub it hit)
  obtain ⟨t', ht', hwhen', _⟩ := (h.timers (ofLex it').1 (ofLex it').2).mp (hsub it' hit')
  rw [haddr, ht', Option.some.injEq] at ht
  have heq : it = it' := by
    apply ofLex.injective
    exact Prod.ext (by rw [← hwhen, ← hwhen', ht]) haddr
  exact absurd hlt (heq ▸ lt_irrefl it)

/--
`getExpired` moves exactly the due timers from the sets into the batch.
-/
structure Expiry (q q' : TimerQueue φ) (now : Timestamp) (expired : List Entry) : Prop where
  heap : q'.heap = q.heap
  numCreated : q'.numCreated = q.numCreated
  mem : ∀ when_ timer, toLex (when_, timer) ∈ expired ↔ toLex (when_, timer) ∈ q.timers ∧ when_ ≤ now
  sorted : expired.Pairwise (· < ·)

theorem getExpired_eq_some {now : Timestamp} {expired : List Entry} (howns : q.Owns outside)
    (haddr : q.Addressable) (h : q.getExpired now = some (q', expired))
    : Expiry q q' now expired ∧ q'.Owns (addrs expired ++ outside) := by
  simp only [getExpired, Option.map_eq_some_iff, Prod.mk.injEq] at h
  obtain ⟨_, herase, rfl, rfl⟩ := h
  have herased := eraseActive_eq_some herase
  have hbelow : ∀ when_ a t, q.heap a = some t →
      ((toLex (when_, a) : Entry) < toLex (now, UINTPTR_MAX) ↔ when_ ≤ now) :=
    fun _ a t ht => lt_sentry (haddr a t ht)
  have hmem : ∀ when_ a, toLex (when_, a) ∈ q.timers.below (toLex (now, UINTPTR_MAX))
      ↔ toLex (when_, a) ∈ q.timers ∧ when_ ≤ now := by
    intro when_ a
    rw [SortedSet.mem_below]
    apply and_congr_right
    intro htimer
    obtain ⟨t, ht, _⟩ := (howns.timers when_ a).mp htimer
    exact hbelow when_ a t ht
  have hsub : ∀ it ∈ q.timers.below (toLex (now, UINTPTR_MAX)), it ∈ q.timers :=
    fun it hit => ((hmem (ofLex it).1 (ofLex it).2).mp hit).1
  have hsorted := q.timers.sorted_below (toLex (now, UINTPTR_MAX))
  refine ⟨⟨herased.heap, herased.numCreated, hmem, hsorted⟩, ?_⟩
  have hbatch : ∀ a t, q.heap a = some t →
      (a ∈ addrs (q.timers.below (toLex (now, UINTPTR_MAX))) ↔ a ∉ outside ∧ t.expiration ≤ now) := by
    intro a t ht
    simp [mem_addrs, hmem, howns.timers, ht]
  constructor
  . intro when_ a
    rw [herased.timers, SortedSet.mem_dropBelow, howns.timers, herased.heap]
    constructor
    . rintro ⟨⟨t, ht, rfl, hnotMem⟩, hlate⟩
      rw [hbelow _ _ t ht] at hlate
      simp [ht, hbatch a t ht, hnotMem, hlate]
    . rintro ⟨t, ht, rfl, hnotMem⟩
      rw [List.mem_append, hbatch a t ht] at hnotMem
      rw [hbelow _ _ t ht]
      exact ⟨⟨t, ht, rfl, by tauto⟩, by tauto⟩
  . intro a sequence
    rw [herased.activeTimers, howns.activeTimers, herased.heap]
    constructor
    . rintro ⟨⟨t, ht, rfl, hnotMem⟩, hlate⟩
      refine ⟨t, ht, rfl, ?_⟩
      rw [List.mem_append, mem_addrs]
      rintro (⟨when_, hit⟩ | hmem)
      . exact hlate _ hit rfl t ht rfl
      . exact hnotMem hmem
    . rintro ⟨t, ht, rfl, hnotMem⟩
      rw [List.mem_append] at hnotMem
      refine ⟨⟨t, ht, rfl, by tauto⟩, ?_⟩
      rintro it hit rfl
      exact absurd (.inl (mem_addrs.mpr ⟨_, hit⟩)) hnotMem
  . intro a ha
    rw [herased.heap]
    cases List.mem_append.mp ha with
    | inl hmem =>
      obtain ⟨when_, hit⟩ := mem_addrs.mp hmem
      obtain ⟨t, ht, _⟩ := (howns.timers when_ a).mp (hsub _ hit)
      exact ⟨t, ht⟩
    | inr hmem => exact howns.live a hmem
  . rw [List.nodup_append]
    refine ⟨howns.nodup_addrs hsub hsorted, howns.nodup, ?_⟩
    rintro a hmem _ hother rfl
    obtain ⟨t, ht⟩ := howns.live a hother
    exact ((hbatch a t ht).mp hmem).1 hother

theorem exists_eraseActive {batch : List Entry} (h : ∀ timer ∈ addrs batch, ∃ t, q.heap timer = some t)
    : ∃ q', q.eraseActive batch = some q' := by
  induction batch generalizing q with
  | nil => exact ⟨q, rfl⟩
  | cons it batch ih =>
    obtain ⟨t, ht⟩ := h _ List.mem_cons_self
    simp only [eraseActive, ht, Option.bind_some]
    exact ih fun timer hmem => h timer (List.mem_cons_of_mem _ hmem)

/--
`getExpired` dereferences no timer that is deleted.
-/
theorem exists_getExpired (howns : q.Owns outside) (now : Timestamp)
    : ∃ q' expired, q.getExpired now = some (q', expired) := by
  have hlive : ∀ timer ∈ addrs (q.timers.below (toLex (now, UINTPTR_MAX))), ∃ t, q.heap timer = some t := by
    intro timer hmem
    obtain ⟨when_, hit⟩ := mem_addrs.mp hmem
    obtain ⟨t, ht, _⟩ := (howns.timers when_ timer).mp (SortedSet.mem_below.mp hit).1
    exact ⟨t, ht⟩
  obtain ⟨q', herase⟩ := exists_eraseActive
    (q := { q with timers := q.timers.dropBelow (toLex (now, UINTPTR_MAX)) }) hlive
  simp only [getExpired, herase, Option.map_some]
  exact ⟨q', _, rfl⟩

/-
The way back: `reset` takes the timers of the batch into the sets again or deletes them.
-/

-- what is at an address of the batch afterwards
def renewed (q : TimerQueue φ) (now : Timestamp) (timer : Addr) (t : Timer φ) : Option (Timer φ) :=
  if t.repeat_ && toLex (timer, t.sequence) ∉ q.cancelingTimers then some (t.restart now) else none

structure Renewed (q q' : TimerQueue φ) (now : Timestamp) (expired : List Entry) : Prop where
  numCreated : q'.numCreated = q.numCreated
  callingExpiredTimers : q'.callingExpiredTimers = q.callingExpiredTimers
  batch : ∀ timer ∈ addrs expired, q'.heap timer = (q.heap timer).bind (q.renewed now timer)
  others : ∀ timer, timer ∉ addrs expired → q'.heap timer = q.heap timer

theorem Renewed.cons {q₁ : TimerQueue φ} {now : Timestamp} {it : Entry} {expired : List Entry}
    (h : Renewed q₁ q' now expired) (ht : q.heap (ofLex it).2 = some t)
    (hnotMem : (ofLex it).2 ∉ addrs expired)
    (hheap : q₁.heap = Function.update q.heap (ofLex it).2 (q.renewed now (ofLex it).2 t))
    (hcanceling : q₁.cancelingTimers = q.cancelingTimers) (hnumCreated : q₁.numCreated = q.numCreated)
    (hcalling : q₁.callingExpiredTimers = q.callingExpiredTimers)
    : Renewed q q' now (it :: expired) := by
  refine ⟨h.numCreated.trans hnumCreated, h.callingExpiredTimers.trans hcalling, ?_, ?_⟩
  . intro a ha
    by_cases heq : a = (ofLex it).2
    . subst heq
      rw [h.others _ hnotMem, hheap, Function.update_self, ht]
      rfl
    . have hrenewed : q₁.renewed now a = q.renewed now a := by
        unfold renewed
        rw [hcanceling]
      rw [h.batch a (List.mem_of_ne_of_mem heq ha), hheap, Function.update_of_ne heq, hrenewed]
  . intro a ha
    have hne : a ≠ (ofLex it).2 := List.ne_of_not_mem_cons ha
    rw [h.others a (List.not_mem_of_not_mem_cons ha), hheap, Function.update_of_ne hne]

theorem resetEntries_eq_some {now : Timestamp} {expired : List Entry}
    (howns : q.Owns (addrs expired ++ outside)) (h : q.resetEntries now expired = some q')
    : Renewed q q' now expired ∧ q'.Owns outside := by
  induction expired generalizing q with
  | nil =>
    simp only [resetEntries, Option.some.injEq] at h
    subst h
    refine ⟨?_, howns⟩
    constructor <;> simp [addrs]
  | cons it expired ih =>
    simp only [resetEntries_cons, Option.bind_eq_some_iff] at h
    obtain ⟨t, ht, hrest⟩ := h
    have howns : q.Owns ((ofLex it).2 :: (addrs expired ++ outside)) := howns
    have hnotMem : (ofLex it).2 ∉ addrs expired :=
      fun hmem => (List.nodup_cons.mp howns.nodup).1 (List.mem_append_left _ hmem)
    split at hrest
    . next hrepeat =>
      have hrestarted : Function.update q.heap (ofLex it).2 (some (t.restart now)) (ofLex it).2 =
          some (t.restart now) := Function.update_self ..
      have hupdated := howns.updated List.mem_cons_self (t.restart now)
      obtain ⟨_, hinsert⟩ := insert_eq_some
        (q := { q with heap := Function.update q.heap (ofLex it).2 (some (t.restart now)) }) hrestarted
      rw [hinsert, Option.bind_some] at hrest
      obtain ⟨hrenewed, hrestOwns⟩ := ih (hupdated.inserted hrestarted) hrest
      refine ⟨hrenewed.cons ht hnotMem ?_ rfl rfl rfl, hrestOwns⟩
      rw [renewed, if_pos hrepeat]
      rfl
    . next hrepeat =>
      obtain ⟨hrenewed, hrestOwns⟩ := ih howns.freed hrest
      refine ⟨hrenewed.cons ht hnotMem ?_ rfl rfl rfl, hrestOwns⟩
      rw [renewed, if_neg hrepeat]
      rfl

theorem resetEntries_kept {now : Timestamp} {expired : List Entry} (h : q.resetEntries now expired = some q')
    : q'.timerfd = q.timerfd ∧ q'.settimes = q.settimes ∧ q'.cancelingTimers = q.cancelingTimers := by
  induction expired generalizing q with
  | nil =>
    simp only [resetEntries, Option.some.injEq] at h
    exact h ▸ ⟨rfl, rfl, rfl⟩
  | cons it expired ih =>
    simp only [resetEntries_cons, Option.bind_eq_some_iff] at h
    obtain ⟨t, _, hrest⟩ := h
    split at hrest
    . simp only [insert, Option.bind_eq_some_iff, Option.map_eq_some_iff] at hrest
      obtain ⟨_, ⟨_, _, rfl⟩, hrest⟩ := hrest
      have hkept := ih hrest
      exact hkept
    . have hkept := ih hrest
      exact hkept

theorem cancelingTimers_reset {now : Timestamp} {expired : List Entry} {clock : Int}
    (h : q.reset expired now clock = some q') : q'.cancelingTimers = q.cancelingTimers := by
  simp only [reset, Option.bind_eq_some_iff, Option.map_eq_some_iff] at h
  obtain ⟨q₁, hentries, _, _, hq'⟩ := h
  rw [← (resetEntries_kept hentries).2.2, ← hq']
  split
  . rfl
  . rfl

theorem reset_eq_some {now : Timestamp} {expired : List Entry} {clock : Int}
    (howns : q.Owns (addrs expired ++ outside)) (h : q.reset expired now clock = some q')
    : Renewed q q' now expired ∧ q'.Owns outside := by
  simp only [reset, Option.bind_eq_some_iff, Option.map_eq_some_iff] at h
  obtain ⟨q₁, hentries, nextExpire, _, hq'⟩ := h
  obtain ⟨hrenewed, howns₁⟩ := resetEntries_eq_some howns hentries
  have hsame : SameTimers q₁ q' := by
    rw [← hq']
    split
    . exact .resetTimerfd _ _ _
    . exact .refl _
  refine ⟨⟨?_, ?_, ?_, ?_⟩, howns₁.of_sameTimers hsame⟩
  . exact hsame.numCreated.trans hrenewed.numCreated
  . exact hsame.callingExpiredTimers.trans hrenewed.callingExpiredTimers
  . rw [hsame.heap]
    exact hrenewed.batch
  . rw [hsame.heap]
    exact hrenewed.others

theorem exists_resetEntries {expired : List Entry} (howns : q.Owns (addrs expired ++ outside))
    (now : Timestamp) : ∃ q', q.resetEntries now expired = some q' := by
  induction expired generalizing q with
  | nil => exact ⟨q, rfl⟩
  | cons it expired ih =>
    have howns : q.Owns ((ofLex it).2 :: (addrs expired ++ outside)) := howns
    obtain ⟨t, ht⟩ := howns.live _ List.mem_cons_self
    simp only [resetEntries_cons, ht, Option.bind_some]
    split
    . have hrestarted : Function.update q.heap (ofLex it).2 (some (t.restart now)) (ofLex it).2 =
          some (t.restart now) := Function.update_self ..
      obtain ⟨_, hinsert⟩ := insert_eq_some
        (q := { q with heap := Function.update q.heap (ofLex it).2 (some (t.restart now)) }) hrestarted
      rw [hinsert, Option.bind_some]
      exact ih ((howns.updated List.mem_cons_self (t.restart now)).inserted hrestarted)
    . exact ih howns.freed

/--
`reset` dereferences no timer that is deleted.
-/
theorem exists_reset {expired : List Entry} (howns : q.Owns (addrs expired ++ outside)) (now : Timestamp)
    (clock : Int) : ∃ q', q.reset expired now clock = some q' := by
  obtain ⟨q₁, hentries⟩ := exists_resetEntries howns now
  obtain ⟨_, howns₁⟩ := resetEntries_eq_some howns hentries
  simp only [reset, hentries, Option.bind_some]
  cases hmin : q₁.timers.min? with
  | none => exact ⟨_, rfl⟩
  | some first =>
    have hmem : first ∈ q₁.timers := List.mem_of_head? hmin
    obtain ⟨t, ht, _⟩ := (howns₁.timers (ofLex first).1 (ofLex first).2).mp hmem
    simp [ht]

end TimerQueue

end MyMuduo
