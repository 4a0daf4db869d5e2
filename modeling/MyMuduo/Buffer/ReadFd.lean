import MyMuduo.Buffer.Queue

/-!
This module contains the scatter read of a buffer: `readv` fills the tail of the storage first and then an
array on the stack, whose bytes are appended.
-/

namespace MyMuduo

namespace Buffer

-- the bytes are in place behind the readable ones
def filled (b : Buffer) (bytes : List UInt8) : Buffer :=
  { b with
      buffer := b.buffer.overwrite b.writerIndex bytes
      writerIndex := b.writerIndex + bytes.length }

variable {b : Buffer} {bytes : List UInt8}

theorem valid_filled (h : b.Valid) (hroom : bytes.length ≤ b.writableBytes) : (b.filled bytes).Valid := by
  have := h.readerIndex_le
  have := h.writerIndex_le
  unfold writableBytes at hroom
  refine ⟨h.kCheapPrepend_le, ?_, ?_⟩
  . dsimp only [filled]
    omega
  . dsimp only [filled]
    rw [List.length_overwrite]
    . omega
    . omega

theorem readable_filled (h : b.Valid) : (b.filled bytes).readable = b.readable ++ bytes := by
  unfold filled readable
  dsimp only
  rw [← List.segment_append _ h.readerIndex_le (Nat.le_add_right _ _)]
  rw [List.segment_overwrite_before _ _ _ h.writerIndex_le (Nat.le_refl _)]
  rw [List.segment_overwrite_self _ _ _ h.writerIndex_le]

end Buffer

namespace WordBuffer

/--
What `readv` reports: an `errno`, or the bytes that it has put into the areas.
-/
inductive Readv where
  | failed (errno : Nat)
  | received (bytes : List UInt8)
  deriving DecidableEq, Repr

-- `sizeof extrabuf`
def extrabufSize : UInt64 := 65536

-- the lengths in the `iovcnt` first elements of `vec`
def iov (b : WordBuffer) : List UInt64 :=
  let writable := b.writableBytes
  let vec := [writable, extrabufSize]
  let iovcnt := if writable < extrabufSize then 2 else 1
  vec.take iovcnt

-- what each area receives: one is full before the next is begun
def scatter : List UInt64 → List UInt8 → List (List UInt8)
  | [], _ => []
  | len :: iov, bytes => bytes.take len.toNat :: scatter iov (bytes.drop len.toNat)

-- no more bytes than the areas can hold
def Readv.fits (b : WordBuffer) : Readv → Bool
  | failed _ => true
  | received bytes => bytes.length ≤ (b.iov.map UInt64.toNat).sum

/--
The result is the buffer, the returned `ssize_t`, and what `*saveErrno` is set to.
-/
def readFd (b : WordBuffer) : Readv → Option (WordBuffer × Int × Option Nat)
  | .failed errno => some (b, -1, some errno)
  | .received bytes =>
    let writable := b.writableBytes
    let areas := scatter b.iov bytes
    let n : Int := bytes.length
    (b.buffer.writeCells b.writerIndex.toNat (areas.getD 0 [])).bind fun buffer =>
      ((List.replicate extrabufSize.toNat 0).writeCells 0 (areas.getD 1 [])).bind fun extrabuf =>
        let b := { b with buffer := buffer }
        -- `n` is converted to `size_t`
        if UInt64.ofInt n ≤ writable then
          some ({ b with writerIndex := b.writerIndex + UInt64.ofInt n }, n, none)
        else
          let b := { b with writerIndex := b.size }
          let len := UInt64.ofInt n - writable
          (extrabuf.readCells 0 len.toNat).bind fun data => (b.append data).map (·, n, none)

theorem toNat_ofInt {n : Nat} (h : n ≤ SIZE_MAX) : (UInt64.ofInt n).toNat = n := by
  have hmod : ((n : Int) % 2 ^ 64).toNat = n := by
    unfold SIZE_MAX at h
    omega
  rw [UInt64.ofInt, hmod]
  exact toNat_ofNat h

variable {b : WordBuffer} {bytes : List UInt8}

theorem Valid.filled {writerIndex : UInt64} (h : b.Valid) (hroom : bytes.length ≤ b.toBuffer.writableBytes)
    (hwriter : writerIndex.toNat = b.writerIndex.toNat + bytes.length)
    : b.buffer.writeCells b.writerIndex.toNat bytes = some (b.buffer.overwrite b.writerIndex.toNat bytes)
        ∧ Valid
            { b with
                buffer := b.buffer.overwrite b.writerIndex.toNat bytes
                writerIndex := writerIndex }
        ∧ toBuffer
            { b with
                buffer := b.buffer.overwrite b.writerIndex.toNat bytes
                writerIndex := writerIndex }
          = b.toBuffer.filled bytes := by
  have hsize := h.offsets.writerIndex_le
  have hfits : b.writerIndex.toNat + bytes.length ≤ b.buffer.length := by
    simp only [Buffer.writableBytes, toBuffer] at hroom hsize
    omega
  have heq : toBuffer
      { b with buffer := b.buffer.overwrite b.writerIndex.toNat bytes, writerIndex := writerIndex }
        = b.toBuffer.filled bytes := by
    simp only [toBuffer, Buffer.filled, hwriter]
  refine ⟨List.writeCells_eq _ _ _ hfits, ⟨?_, ?_⟩, heq⟩
  . rw [heq]
    exact Buffer.valid_filled h.offsets hroom
  . dsimp only
    rw [List.length_overwrite _ _ _ hfits]
    exact h.size_le

theorem extrabufSize_toNat : extrabufSize.toNat = 0x10000 := rfl

theorem Valid.fits_iff (h : b.Valid)
    : (Readv.received bytes).fits b = true ↔ bytes.length
        ≤ if b.writableBytes < extrabufSize then
            b.toBuffer.writableBytes + extrabufSize.toNat
          else
            b.toBuffer.writableBytes := by
  have hwritable := h.toNat_writableBytes
  simp only [Readv.fits, iov]
  split
  . simp [hwritable]
  . simp [hwritable]

/--
The bytes that fit behind the writer index are put there and nothing is appended.
-/
theorem Valid.readFd_filled (h : b.Valid) (hroom : bytes.length ≤ b.toBuffer.writableBytes)
    : ∃ b' : WordBuffer, b.readFd (.received bytes) = some (b', (bytes.length : Int), none) ∧ b'.Valid
        ∧ b'.toBuffer = b.toBuffer.filled bytes := by
  have hwritable := h.toNat_writableBytes
  have hn : (UInt64.ofInt (bytes.length : Int)).toNat = bytes.length := by
    apply toNat_ofInt
    have := toNat_le b.writableBytes
    omega
  have hsize := h.offsets.writerIndex_le
  have hsize_le := h.size_le
  have hend : (b.writerIndex + UInt64.ofInt (bytes.length : Int)).toNat
      = b.writerIndex.toNat + bytes.length := by
    rw [toNat_add, hn]
    simp only [Buffer.writableBytes, toBuffer] at hroom hsize
    omega
  obtain ⟨hwrite, hvalid, hbuffer⟩ := h.filled hroom hend
  have hareas : (scatter b.iov bytes).getD 0 [] = bytes ∧ (scatter b.iov bytes).getD 1 [] = [] := by
    have hall : bytes.take b.writableBytes.toNat = bytes := List.take_of_length_le (hwritable ▸ hroom)
    have hnone : bytes.drop b.writableBytes.toNat = [] := List.drop_eq_nil_of_le (hwritable ▸ hroom)
    unfold iov
    dsimp only
    split
    . simp [scatter, hall, hnone]
    . simp [scatter, hall]
  refine ⟨_, ?_, hvalid, hbuffer⟩
  unfold readFd
  dsimp only
  rw [hareas.1, hareas.2, hwrite, Option.bind_some, List.writeCells, Option.bind_some, if_pos]
  rw [UInt64.le_iff_toNat_le, hn, hwritable]
  exact hroom

-- what is written to the front of an array is read back
theorem readCells_writeCells {cells bytes : List UInt8} (h : bytes.length ≤ cells.length)
    : (cells.writeCells 0 bytes).bind (·.readCells 0 bytes.length) = some bytes := by
  have hwrite : 0 + bytes.length ≤ cells.length := by omega
  have hread : 0 + bytes.length ≤ (cells.overwrite 0 bytes).length := by
    rw [List.length_overwrite _ _ _ hwrite]
    exact hwrite
  rw [List.writeCells_eq _ _ _ hwrite, Option.bind_some, List.readCells_eq _ _ _ hread]
  rw [List.segment_overwrite_self _ _ _ (Nat.zero_le _)]

/--
When the storage is full the rest comes from the array and is appended.
-/
theorem Valid.readFd_overflown (h : b.Valid) (hfull : b.toBuffer.writableBytes < bytes.length)
    (hfits : (Readv.received bytes).fits b = true)
    (hsum : b.buffer.length + extrabufSize.toNat ≤ SIZE_MAX)
    : ∃ b' : WordBuffer, b.readFd (.received bytes) = some (b', (bytes.length : Int), none) ∧ b'.Valid
        ∧ b'.toBuffer = (b.toBuffer.filled (bytes.take b.toBuffer.writableBytes)).append
            (bytes.drop b.toBuffer.writableBytes) := by
  have hwritable := h.toNat_writableBytes
  have hsize := h.offsets.writerIndex_le
  have hbuffer_size : b.size.toNat = b.buffer.length := toNat_ofNat h.size_le
  rw [h.fits_iff] at hfits
  split at hfits
  . next hvec =>
    have hlength : (bytes.take b.toBuffer.writableBytes).length = b.toBuffer.writableBytes :=
      List.length_take_of_le (Nat.le_of_lt hfull)
    have hrest : (bytes.drop b.toBuffer.writableBytes).length ≤ extrabufSize.toNat := by
      rw [List.length_drop]
      omega
    have hroom : b.toBuffer.writableBytes ≤ b.buffer.length := by
      simp only [Buffer.writableBytes, toBuffer]
      omega
    have hn : (UInt64.ofInt (bytes.length : Int)).toNat = bytes.length := by
      apply toNat_ofInt
      omega
    have hend : b.size.toNat = b.writerIndex.toNat + (bytes.take b.toBuffer.writableBytes).length := by
      rw [hlength, hbuffer_size]
      simp only [Buffer.writableBytes, toBuffer] at hsize ⊢
      omega
    obtain ⟨hwrite, hvalid, hfilled⟩ := h.filled (Nat.le_of_eq hlength) hend
    have hlen : (UInt64.ofInt (bytes.length : Int) - b.writableBytes).toNat
        = (bytes.drop b.toBuffer.writableBytes).length := by
      rw [UInt64.toNat_sub_of_le, hn, hwritable, List.length_drop]
      rw [UInt64.le_iff_toNat_le, hn, hwritable]
      exact Nat.le_of_lt hfull
    have hcells : (bytes.drop b.toBuffer.writableBytes).length
        ≤ (List.replicate extrabufSize.toNat (0 : UInt8)).length := by
      rw [List.length_replicate]
      exact hrest
    obtain ⟨extrabuf, hscattered, hdata⟩ := Option.bind_eq_some_iff.mp (readCells_writeCells hcells)
    have hareas : (scatter b.iov bytes).getD 0 [] = bytes.take b.toBuffer.writableBytes
        ∧ (scatter b.iov bytes).getD 1 [] = bytes.drop b.toBuffer.writableBytes := by
      have hall : (bytes.drop b.toBuffer.writableBytes).take extrabufSize.toNat
          = bytes.drop b.toBuffer.writableBytes := List.take_of_length_le hrest
      unfold iov
      dsimp only
      rw [if_pos hvec]
      simp [scatter, hwritable, hall]
    have hspace : (bytes.drop b.toBuffer.writableBytes).length + b.size.toNat ≤ SIZE_MAX := by omega
    obtain ⟨b', happend, hvalid', hbuffer'⟩ := hvalid.append_eq hspace
    refine ⟨b', ?_, hvalid', by rw [hbuffer', hfilled]⟩
    unfold readFd
    dsimp only
    rw [hareas.1, hareas.2, hwrite, Option.bind_some, hscattered, Option.bind_some, if_neg, hlen, hdata,
      Option.bind_some]
    . have hkept : size { b with
            buffer := b.buffer.overwrite b.writerIndex.toNat (bytes.take b.toBuffer.writableBytes) }
          = b.size := by
        unfold size
        dsimp only
        rw [List.length_overwrite]
        rw [hlength]
        simp only [Buffer.writableBytes, toBuffer] at hsize ⊢
        omega
      rw [hkept, happend, Option.map_some]
    . rw [UInt64.le_iff_toNat_le, hn, hwritable]
      omega
  . omega

/--
A scatter read does what one append of all the bytes does to the readable ones.
-/
theorem Valid.readFd_received (h : b.Valid) (hfits : (Readv.received bytes).fits b = true)
    (hsum : b.buffer.length + extrabufSize.toNat ≤ SIZE_MAX)
    : ∃ b' : WordBuffer, b.readFd (.received bytes) = some (b', (bytes.length : Int), none) ∧ b'.Valid
        ∧ b'.toQueue = b.toQueue ++ bytes := by
  by_cases hroom : bytes.length ≤ b.toBuffer.writableBytes
  . obtain ⟨b', hread, hvalid, hbuffer⟩ := h.readFd_filled hroom
    refine ⟨b', hread, hvalid, ?_⟩
    rw [toQueue, hbuffer, Buffer.readable_filled h.offsets]
    rfl
  . have hfull := Nat.lt_of_not_le hroom
    obtain ⟨b', hread, hvalid, hbuffer⟩ := h.readFd_overflown hfull hfits hsum
    have hfilled := Buffer.valid_filled h.offsets
      (Nat.le_trans (List.length_take_le _ bytes) (Nat.le_refl _))
    refine ⟨b', hread, hvalid, ?_⟩
    rw [toQueue, hbuffer, Buffer.readable_append hfilled, Buffer.readable_filled h.offsets]
    rw [List.append_assoc, List.take_append_drop]
    rfl

end WordBuffer

end MyMuduo
