import MyMuduo.Buffer.Calls
import MyMuduo.Transition.History

/-!
This module contains the size of the storage of a buffer: it grows with the most bytes that have been
readable at once, whatever is taken out in between.
-/

namespace MyMuduo

namespace Buffer

variable {b : Buffer}

theorem readableBytes_append (h : b.Valid) (data : List UInt8)
    : (b.append data).readableBytes = b.readableBytes + data.length := by
  rw [← (valid_append h data).length_readable, ← h.length_readable, readable_append h, List.length_append]

theorem length_filled (h : b.Valid) {bytes : List UInt8} (hroom : bytes.length ≤ b.writableBytes)
    : (b.filled bytes).buffer.length = b.buffer.length := by
  have hwriter := h.writerIndex_le
  unfold writableBytes at hroom
  unfold filled
  dsimp only
  rw [List.length_overwrite]
  omega

/--
Storage is added only if what is in front of the readable bytes and behind them is too small, so that the
readable bytes and the new ones come to more than what is in front.
-/
theorem length_makeSpace_le (h : b.Valid) {len : Nat} (hlen : b.writableBytes < len)
    : (b.makeSpace len).buffer.length
        ≤ max b.buffer.length (2 * (b.readableBytes + len) + kCheapPrepend) := by
  have horder := h.readerIndex_le
  have hwriter := h.writerIndex_le
  unfold makeSpace
  split
  . next hsmall =>
    have hsize : (b.resize (len + b.writerIndex)).buffer.length = len + b.writerIndex := by
      unfold writableBytes at hlen
      simp only [resize, List.length_append, List.length_replicate]
      omega
    have hfront : b.readerIndex < len + kCheapPrepend := by
      unfold prependableBytes at hsmall
      omega
    rw [hsize]
    unfold readableBytes
    omega
  . dsimp only
    rw [List.length_overwrite _ _ _ h.readable_fits]
    apply Nat.le_max_left

theorem length_append_le (h : b.Valid) (data : List UInt8)
    : (b.append data).buffer.length
        ≤ max b.buffer.length (2 * (b.append data).readableBytes + kCheapPrepend) := by
  have hroom := writableBytes_ensureWriteableBytes h data.length
  have hvalid := valid_ensureWriteableBytes h data.length
  have hlength : (b.append data).buffer.length = (b.ensureWriteableBytes data.length).buffer.length :=
    length_filled hvalid hroom
  rw [hlength, readableBytes_append h]
  unfold ensureWriteableBytes
  split
  . next hlen => exact length_makeSpace_le h hlen
  . apply Nat.le_max_left

end Buffer

namespace WordBuffer

-- those that put bytes in or take them out
def Call.movesBytes : Call → Bool
  | append _ | retrieve _ | retrieveAll | reteieveAsString _ | retrieveAllAsString | readFd _ => true
  | ensureWriteableBytes _ => false

/--
The calls on a buffer that was made with `initialSize`. A size beyond the largest one makes the constructor
throw.
-/
def exchanges (initialSize : UInt64) : LTS WordBuffer Call :=
  .guarded
    (fun b => (kCheapPrepend + initialSize).toNat ≤ PTRDIFF_MAX ∧ b = new initialSize)
    (fun _ c => c.movesBytes)
    calls.step

-- the storage after a call is not larger than before it or than what is readable accounts for
def Bounded (b b' : WordBuffer) : Prop :=
  b'.buffer.length ≤ max b.buffer.length (2 * b'.toBuffer.readableBytes + Buffer.kCheapPrepend)

theorem length_toBuffer (b : WordBuffer) : b.toBuffer.buffer.length = b.buffer.length := rfl

theorem Inv.bounded_append {b b' : WordBuffer} {data : List UInt8} (h : b.Inv)
    (hlen : data.length ≤ PTRDIFF_MAX) (hcall : b.append data = some b') : b.Bounded b' := by
  have hwriter := h.writerIndex_le
  have hsum : data.length + b.writerIndex.toNat ≤ SIZE_MAX := by
    unfold PTRDIFF_MAX at hwriter hlen
    unfold SIZE_MAX
    omega
  obtain ⟨b₁, happend, _, hbuffer⟩ := h.valid.append_eq hsum
  rw [happend, Option.some.injEq] at hcall
  subst hcall
  unfold Bounded
  rw [← length_toBuffer b₁, hbuffer]
  exact Buffer.length_append_le h.valid.offsets data

theorem bounded_retrieve {b : WordBuffer} (len : UInt64) : b.Bounded (b.retrieve len) := by
  unfold Bounded retrieve
  split
  . apply Nat.le_max_left
  . apply Nat.le_max_left

theorem bounded_reteieveAsString {b b' : WordBuffer} {len : UInt64} {result : List UInt8}
    (hcall : b.reteieveAsString len = some (result, b')) : b.Bounded b' := by
  simp only [WordBuffer.reteieveAsString, Option.map_eq_some_iff, Prod.mk.injEq] at hcall
  obtain ⟨_, _, _, rfl⟩ := hcall
  exact bounded_retrieve len

/--
Declaring the storage full before the rest is appended does not make the bound larger: what is readable then
is readable afterwards too.
-/
theorem Inv.bounded_readFd {b : WordBuffer} {bytes : List UInt8} (h : b.Inv)
    (hfits : (Readv.received bytes).fits b = true)
    : ∃ b' : WordBuffer, b.readFd (.received bytes) = some (b', (bytes.length : Int), none)
        ∧ b.Bounded b' := by
  have hoffsets := h.valid.offsets
  by_cases hroom : bytes.length ≤ b.toBuffer.writableBytes
  . obtain ⟨b', hread, _, hbuffer⟩ := h.valid.readFd_filled hroom
    refine ⟨b', hread, ?_⟩
    unfold Bounded
    rw [← length_toBuffer b', hbuffer, Buffer.length_filled hoffsets hroom]
    apply Nat.le_max_left
  . have hfull := Nat.lt_of_not_le hroom
    obtain ⟨b', hread, _, hbuffer⟩ := h.valid.readFd_overflown hfull hfits h.length_add_le
    refine ⟨b', hread, ?_⟩
    have htake : (bytes.take b.toBuffer.writableBytes).length ≤ b.toBuffer.writableBytes :=
      List.length_take_le _ _
    have hvalid := Buffer.valid_filled hoffsets htake
    have hbound := Buffer.length_append_le hvalid (bytes.drop b.toBuffer.writableBytes)
    rw [Buffer.length_filled hoffsets htake] at hbound
    unfold Bounded
    rw [← length_toBuffer b', hbuffer]
    exact hbound

theorem Inv.bounded_next {b b' : WordBuffer} {c : Call} (h : b.Inv) (hmoves : c.movesBytes = true)
    (hpossible : c.possible b = true) (hnext : c.next b = some b') : b.Bounded b' := by
  cases c with
  | append data =>
    simp only [Call.possible, decide_eq_true_eq] at hpossible
    exact h.bounded_append hpossible hnext
  | retrieve len =>
    rw [Call.next, Option.some.injEq] at hnext
    exact hnext ▸ bounded_retrieve len
  | retrieveAll =>
    rw [Call.next, Option.some.injEq] at hnext
    exact hnext ▸ Nat.le_max_left _ _
  | ensureWriteableBytes len => simp [Call.movesBytes] at hmoves
  | reteieveAsString len =>
    simp only [Call.next, Option.map_eq_some_iff] at hnext
    obtain ⟨_, hcall, rfl⟩ := hnext
    exact bounded_reteieveAsString hcall
  | retrieveAllAsString =>
    simp only [Call.next, Option.map_eq_some_iff] at hnext
    obtain ⟨_, hcall, rfl⟩ := hnext
    exact bounded_reteieveAsString hcall
  | readFd result =>
    cases result with
    | failed errno =>
      simp only [Call.next, readFd, Option.map_some, Option.some.injEq] at hnext
      exact hnext ▸ Nat.le_max_left _ _
    | received bytes =>
      obtain ⟨b₁, hread, hbounded⟩ := h.bounded_readFd hpossible
      rw [Call.next, hread, Option.map_some, Option.some.injEq] at hnext
      exact hnext ▸ hbounded

variable {initialSize : UInt64}

theorem exchanges_step {b b' : WordBuffer} {c : Call}
    : (exchanges initialSize).step b c = some b' ↔ c.movesBytes = true ∧ calls.step b c = some b' :=
  LTS.guarded_step

theorem calls_step {b b' : WordBuffer} {c : Call}
    : calls.step b c = some b'
        ↔ c.possible b = true ∧ c.next b = some b' ∧ b'.buffer.length ≤ PTRDIFF_MAX := by
  rw [calls, LTS.guarded_step, Option.filter_eq_some_iff, decide_eq_true_eq]

theorem exchanges_reachable {b : WordBuffer} (hsize : Buffer.kCheapPrepend + initialSize.toNat ≤ PTRDIFF_MAX)
    (h : (exchanges initialSize).Reachable b) : calls.Reachable b := by
  induction h with
  | init hinit => exact .init ⟨initialSize, hsize, hinit.2⟩
  | step _ _ hstep ih => exact .step ih trivial (exchanges_step.mp hstep).2

theorem exchanges_length_le {b : WordBuffer} (h : (exchanges initialSize).Reachable b)
    : b.buffer.length ≤ PTRDIFF_MAX := by
  refine LTS.Reachable.invariant (fun b => b.buffer.length ≤ PTRDIFF_MAX) ?_ ?_ h
  . rintro _ ⟨hsize, rfl⟩
    simp only [new, List.length_replicate]
    exact hsize
  . intro b c b' _ hstep
    exact (calls_step.mp (exchanges_step.mp hstep).2).2.2

def Within (initialSize : UInt64) (r : Recorded WordBuffer Nat) : Prop :=
  r.state.buffer.length
    ≤ max (Buffer.kCheapPrepend + initialSize.toNat) (2 * r.history + Buffer.kCheapPrepend)

theorem Within.step {r r' : Recorded WordBuffer Nat} {c : Call} (h : Within initialSize r)
    (hinv : r.state.Inv) (hinv' : r'.state.Inv)
    (hstep : ((exchanges initialSize).withPeak (·.readableBytes.toNat)).step r c = some r')
    : Within initialSize r' := by
  obtain ⟨hpeak, hreadable⟩ := LTS.le_peak_step hstep
  obtain ⟨hmoves, hcall⟩ := exchanges_step.mp (LTS.recording_step.mp hstep).1
  obtain ⟨hpossible, hnext, _⟩ := calls_step.mp hcall
  have hbounded := hinv.bounded_next hmoves hpossible hnext
  rw [hinv'.valid.toNat_readableBytes] at hreadable
  unfold Bounded at hbounded
  unfold Within at h ⊢
  omega

/--
However the bytes come in and are taken out, the storage is not larger than the one that was made or twice
the most bytes that have been readable at once.
-/
theorem length_le_peak (initialSize : UInt64) (r : Recorded WordBuffer Nat)
    (h : ((exchanges initialSize).withPeak (·.readableBytes.toNat)).Reachable r)
    : r.state.buffer.length
        ≤ max (Buffer.kCheapPrepend + initialSize.toNat) (2 * r.history + Buffer.kCheapPrepend) := by
  by_cases hsize : Buffer.kCheapPrepend + initialSize.toNat ≤ PTRDIFF_MAX
  . have hvalid : ∀ r, ((exchanges initialSize).withPeak (·.readableBytes.toNat)).Reachable r
        → r.state.Inv :=
      fun r hr => inv_reachable (exchanges_reachable hsize hr.state)
    induction h with
    | init hinit =>
      obtain ⟨⟨_, hnew⟩, _⟩ := hinit
      rw [hnew]
      simp only [new, List.length_replicate]
      rw [toNat_add]
      . apply Nat.le_max_left
      . unfold PTRDIFF_MAX at hsize
        unfold SIZE_MAX
        exact Nat.le_trans hsize (by decide)
    | step hr _ hstep ih => exact Within.step ih (hvalid _ hr) (hvalid _ (.step hr trivial hstep)) hstep
  -- the sum in the constructor may have wrapped, and the calls stay below the largest size
  . have hlength := exchanges_length_le h.state
    omega

-- bytes come in behind what has been taken out
def regrown : Recorded WordBuffer Nat :=
  (((exchanges 4).withPeak (·.readableBytes.toNat)).run ⟨new 4, 0⟩
    [.append [1, 2, 3], .retrieve 2, .append [4, 5, 6, 7, 8, 9]]).get rfl

theorem reachable_regrown : ((exchanges 4).withPeak (·.readableBytes.toNat)).Reachable regrown := by
  have hnew : ((exchanges 4).withPeak (·.readableBytes.toNat)).Reachable ⟨new 4, 0⟩ :=
    .init ⟨⟨by decide, rfl⟩, rfl⟩
  exact hnew.run (Option.some_get _).symm

-- there is no room for the third message, and in front of it two bytes are free
theorem length_le_peak_regrown
    : regrown.history = 7 ∧ regrown.state.buffer.length = 17
        ∧ regrown.state.buffer.length ≤ max (8 + 4) (2 * 7 + 8) :=
  ⟨rfl, rfl, length_le_peak 4 regrown reachable_regrown⟩

end WordBuffer

end MyMuduo
