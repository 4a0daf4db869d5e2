import MyMuduo.Buffer.ReadFd
import MyMuduo.Transition.Basic

/-!
This module contains the runs of all calls on a buffer: what `reteieveAsString` takes and what `readFd`
adds in every state that they reach.
-/

namespace MyMuduo

namespace WordBuffer

inductive Call where
  | append (data : List UInt8)
  | retrieve (len : UInt64)
  | retrieveAll
  | ensureWriteableBytes (len : UInt64)
  | reteieveAsString (len : UInt64)
  | retrieveAllAsString
  | readFd (result : Readv)
  deriving DecidableEq, Repr

-- no array and no `std::vector<char>` is larger
def PTRDIFF_MAX : Nat := 0x7fffffffffffffff

-- `append` gets the bytes of an array, and for them the sums of type `size_t` never wrap. Who reserves room
-- for more than an array can hold keeps the new size within that type.
def Call.possible (b : WordBuffer) : Call → Bool
  | append data => data.length ≤ PTRDIFF_MAX
  | ensureWriteableBytes len => len.toNat + b.writerIndex.toNat ≤ SIZE_MAX
  | readFd result => result.fits b
  | retrieve _ | retrieveAll | reteieveAsString _ | retrieveAllAsString => true

def Call.next (b : WordBuffer) : Call → Option WordBuffer
  | append data => b.append data
  | retrieve len => some (b.retrieve len)
  | retrieveAll => some b.retrieveAll
  | ensureWriteableBytes len => b.ensureWriteableBytes len
  | reteieveAsString len => (b.reteieveAsString len).map Prod.snd
  | retrieveAllAsString => b.retrieveAllAsString.map Prod.snd
  | readFd result => (b.readFd result).map Prod.fst

/--
The calls on one buffer. `std::vector` throws instead of growing beyond its largest size.
-/
def calls : LTS WordBuffer Call :=
  .guarded
    (fun b => ∃ initialSize, Buffer.kCheapPrepend + initialSize.toNat ≤ PTRDIFF_MAX ∧ b = new initialSize)
    Call.possible
    fun b c => (c.next b).filter fun b => b.buffer.length ≤ PTRDIFF_MAX

structure Inv (b : WordBuffer) : Prop where
  valid : b.Valid
  length_le : b.buffer.length ≤ PTRDIFF_MAX

theorem Inv.writerIndex_le {b : WordBuffer} (h : b.Inv) : b.writerIndex.toNat ≤ PTRDIFF_MAX :=
  Nat.le_trans h.valid.offsets.writerIndex_le h.length_le

theorem Inv.length_add_le {b : WordBuffer} (h : b.Inv)
    : b.buffer.length + extrabufSize.toNat ≤ SIZE_MAX := by
  have hlength := h.length_le
  rw [extrabufSize_toNat]
  unfold PTRDIFF_MAX at hlength
  unfold SIZE_MAX
  omega

theorem inv_new (initialSize : UInt64) (h : Buffer.kCheapPrepend + initialSize.toNat ≤ PTRDIFF_MAX)
    : (new initialSize).Inv := by
  have hsize : Buffer.kCheapPrepend + initialSize.toNat ≤ SIZE_MAX := by
    unfold PTRDIFF_MAX at h
    unfold SIZE_MAX
    omega
  refine ⟨valid_new initialSize hsize, ?_⟩
  have heq : (kCheapPrepend + initialSize).toNat = Buffer.kCheapPrepend + initialSize.toNat :=
    toNat_add hsize
  simp only [new, List.length_replicate, heq]
  exact h

theorem Valid.reteieveAsString {b b' : WordBuffer} {len : UInt64} {result : List UInt8} (h : b.Valid)
    (hcall : b.reteieveAsString len = some (result, b')) : b'.Valid := by
  simp only [WordBuffer.reteieveAsString, Option.map_eq_some_iff, Prod.mk.injEq] at hcall
  obtain ⟨_, _, _, rfl⟩ := hcall
  exact h.retrieve len

/--
A call that returns leaves the offsets in order.
-/
theorem Inv.next {b b' : WordBuffer} {c : Call} (h : b.Inv) (hpossible : c.possible b = true)
    (hnext : c.next b = some b') : b'.Valid := by
  have hwriter := h.writerIndex_le
  cases c with
  | append data =>
    have hsum : data.length + b.writerIndex.toNat ≤ SIZE_MAX := by
      simp only [Call.possible, decide_eq_true_eq] at hpossible
      unfold PTRDIFF_MAX at hwriter hpossible
      unfold SIZE_MAX
      omega
    obtain ⟨b₁, happend, hvalid, _⟩ := h.valid.append_eq hsum
    rw [Call.next, happend, Option.some.injEq] at hnext
    exact hnext ▸ hvalid
  | retrieve len =>
    rw [Call.next, Option.some.injEq] at hnext
    exact hnext ▸ h.valid.retrieve len
  | retrieveAll =>
    rw [Call.next, Option.some.injEq] at hnext
    exact hnext ▸ ⟨Buffer.valid_retrieveAll h.valid.offsets, h.valid.size_le⟩
  | ensureWriteableBytes len =>
    simp only [Call.possible, decide_eq_true_eq] at hpossible
    obtain ⟨b₁, hensure, hvalid, _⟩ := h.valid.ensureWriteableBytes_eq hpossible
    rw [Call.next, hensure, Option.some.injEq] at hnext
    exact hnext ▸ hvalid
  | reteieveAsString len =>
    simp only [Call.next, Option.map_eq_some_iff] at hnext
    obtain ⟨_, hcall, rfl⟩ := hnext
    exact h.valid.reteieveAsString hcall
  | retrieveAllAsString =>
    simp only [Call.next, Option.map_eq_some_iff] at hnext
    obtain ⟨_, hcall, rfl⟩ := hnext
    exact h.valid.reteieveAsString hcall
  | readFd result =>
    cases result with
    | failed errno =>
      simp only [Call.next, readFd, Option.map_some, Option.some.injEq] at hnext
      exact hnext ▸ h.valid
    | received bytes =>
      obtain ⟨b₁, hread, hvalid, _⟩ := h.valid.readFd_received hpossible h.length_add_le
      rw [Call.next, hread, Option.map_some, Option.some.injEq] at hnext
      exact hnext ▸ hvalid

theorem inv_reachable {b : WordBuffer} (h : calls.Reachable b) : b.Inv := by
  refine LTS.Reachable.invariant Inv ?_ ?_ h
  . rintro _ ⟨initialSize, hsize, rfl⟩
    exact inv_new initialSize hsize
  . intro b c b' hinv hstep
    rw [calls, LTS.guarded_step] at hstep
    obtain ⟨hpossible, hnext⟩ := hstep
    rw [Option.filter_eq_some_iff, decide_eq_true_eq] at hnext
    exact ⟨hinv.next hpossible hnext.1, hnext.2⟩

theorem Valid.reteieveAsString_exact {b : WordBuffer} (h : b.Valid) {len : UInt64}
    (hlen : len ≤ b.readableBytes)
    : ∃ result b', b.reteieveAsString len = some (result, b') ∧ result ++ b'.toQueue = b.toQueue := by
  have hreadable := h.toNat_readableBytes
  have horder := h.offsets.readerIndex_le
  have hsize := h.offsets.writerIndex_le
  rw [UInt64.le_iff_toNat_le, hreadable] at hlen
  simp only [Buffer.readableBytes, toBuffer] at hlen horder hsize
  refine ⟨b.toQueue.take len.toNat, b.retrieve len, ?_, ?_⟩
  . unfold WordBuffer.reteieveAsString toQueue Buffer.readable
    rw [List.readCells_eq, Option.map_some, List.take_segment]
    . rfl
    . simp only [toBuffer]
      omega
    . omega
  . rw [h.toQueue_retrieve, List.take_append_drop]

/--
What is taken out and what stays are the bytes that were readable exactly if no more is asked for.
-/
theorem reteieveAsString_iff (b : WordBuffer) (h : calls.Reachable b) (len : UInt64)
    : (∃ result b', b.reteieveAsString len = some (result, b') ∧ result ++ b'.toQueue = b.toQueue)
        ↔ len ≤ b.readableBytes := by
  have hvalid := (inv_reachable h).valid
  constructor
  . rintro ⟨result, b', hcall, hqueue⟩
    simp only [reteieveAsString, Option.map_eq_some_iff, Prod.mk.injEq] at hcall
    obtain ⟨_, hread, rfl, _⟩ := hcall
    have hlength := congrArg List.length hqueue
    rw [List.length_append, List.length_readCells hread, toQueue, toQueue, hvalid.offsets.length_readable]
      at hlength
    rw [UInt64.le_iff_toNat_le, hvalid.toNat_readableBytes]
    omega
  . exact hvalid.reteieveAsString_exact

-- three bytes have been taken out before one comes in
def stale : WordBuffer :=
  (calls.run (new 4) [.append [1, 2, 3], .retrieve 3, .append [4]]).get rfl

theorem reachable_stale : calls.Reachable stale := by
  have hnew : calls.Reachable (new 4) := .init ⟨4, by decide, rfl⟩
  exact hnew.run (Option.some_get _).symm

-- the bytes of the first message come out again, and beyond the storage there is nothing to read
theorem reteieveAsString_stale
    : calls.Reachable stale ∧ stale.toQueue = [4]
        ∧ stale.reteieveAsString 3 = some ([4, 2, 3], stale.retrieveAll)
        ∧ stale.reteieveAsString 5 = none := by
  refine ⟨reachable_stale, ?_, ?_, ?_⟩
  . rfl
  . rfl
  . rfl

theorem reteieveAsString_iff_stale
    : ∃ result b', stale.reteieveAsString 1 = some (result, b') ∧ result ++ b'.toQueue = stale.toQueue := by
  apply (reteieveAsString_iff stale reachable_stale 1).mpr
  decide

/--
A scatter read is an append of what has been received, whatever the areas receive of it, and an error
changes nothing.
-/
theorem readFd_appends (b : WordBuffer) (h : calls.Reachable b)
    : (∀ errno, b.readFd (.failed errno) = some (b, -1, some errno))
        ∧ ∀ bytes, (Readv.received bytes).fits b = true →
          ∃ b' : WordBuffer, b.readFd (.received bytes) = some (b', (bytes.length : Int), none)
            ∧ b'.toQueue = b.toQueue ++ bytes
            ∧ kCheapPrepend ≤ b'.readerIndex ∧ b'.readerIndex ≤ b'.writerIndex
            ∧ b'.writerIndex ≤ b'.size ∧ b'.size.toNat = b'.buffer.length
            ∧ bytes.length - b.writableBytes.toNat ≤ extrabufSize.toNat := by
  have hinv := inv_reachable h
  constructor
  . intro errno
    rfl
  . intro bytes hfits
    obtain ⟨b', hread, hvalid, hqueue⟩ := hinv.valid.readFd_received hfits hinv.length_add_le
    have hsize : b'.size.toNat = b'.buffer.length := toNat_ofNat hvalid.size_le
    refine ⟨b', hread, hqueue, ?_, ?_, ?_, hsize, ?_⟩
    . exact UInt64.le_iff_toNat_le.mpr hvalid.offsets.kCheapPrepend_le
    . exact UInt64.le_iff_toNat_le.mpr hvalid.offsets.readerIndex_le
    . rw [UInt64.le_iff_toNat_le, hsize]
      exact hvalid.offsets.writerIndex_le
    . rw [hinv.valid.fits_iff] at hfits
      rw [hinv.valid.toNat_writableBytes]
      split at hfits
      . omega
      . omega

-- the fourth and the fifth byte do not fit behind the writer index
theorem readFd_appends_stale
    : ∃ b' : WordBuffer, stale.readFd (.received [5, 6, 7, 8, 9]) = some (b', 5, none)
        ∧ b'.toQueue = [4, 5, 6, 7, 8, 9] := by
  have hfits : (Readv.received [5, 6, 7, 8, 9]).fits stale = true := by decide
  obtain ⟨b', hread, hqueue, _⟩ := (readFd_appends stale reachable_stale).2 [5, 6, 7, 8, 9] hfits
  exact ⟨b', hread, hqueue⟩

end WordBuffer

end MyMuduo
