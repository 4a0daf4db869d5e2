import MyMuduo.Buffer.Basic

/-!
This module contains the buffer with offsets of the type `size_t`, whose sums and differences wrap, and
with copies that fail when they leave the storage. As long as no sum overflows, each operation is the
one on `Buffer`.
-/

namespace MyMuduo

structure WordBuffer where
  buffer : List UInt8
  readerIndex : UInt64
  writerIndex : UInt64
  deriving DecidableEq, Repr

namespace WordBuffer

def kCheapPrepend : UInt64 := 8

def new (initialSize : UInt64) : WordBuffer where
  buffer := List.replicate (kCheapPrepend + initialSize).toNat 0
  readerIndex := kCheapPrepend
  writerIndex := kCheapPrepend

def size (b : WordBuffer) : UInt64 :=
  .ofNat b.buffer.length

def readableBytes (b : WordBuffer) : UInt64 :=
  b.writerIndex - b.readerIndex

def writableBytes (b : WordBuffer) : UInt64 :=
  b.size - b.writerIndex

def prependableBytes (b : WordBuffer) : UInt64 :=
  b.readerIndex

def retrieveAll (b : WordBuffer) : WordBuffer :=
  { b with readerIndex := kCheapPrepend, writerIndex := kCheapPrepend }

def retrieve (b : WordBuffer) (len : UInt64) : WordBuffer :=
  if len < b.readableBytes then
    { b with readerIndex := b.readerIndex + len }
  else
    b.retrieveAll

-- the string is built from the `len` bytes at `peek()`
def reteieveAsString (b : WordBuffer) (len : UInt64) : Option (List UInt8 × WordBuffer) :=
  (b.buffer.readCells b.readerIndex.toNat len.toNat).map fun result => (result, b.retrieve len)

def retrieveAllAsString (b : WordBuffer) : Option (List UInt8 × WordBuffer) :=
  b.reteieveAsString b.readableBytes

-- `std::vector::resize`
def resize (b : WordBuffer) (size : UInt64) : WordBuffer :=
  { b with
      buffer :=
        b.buffer.take size.toNat ++ List.replicate (size.toNat - b.buffer.length) 0 }

-- `std::copy`, whose result must not start inside of the range
def copy (b : WordBuffer) (first last result : UInt64) : Option WordBuffer :=
  if last < first ∨ first ≤ result ∧ result < last then
    none
  else
    (b.buffer.copyCells first.toNat result.toNat (last - first).toNat).map
      fun buffer => { b with buffer := buffer }

def makeSpace (b : WordBuffer) (len : UInt64) : Option WordBuffer :=
  if b.writableBytes + b.prependableBytes < len + kCheapPrepend then
    some (b.resize (len + b.writerIndex))
  else
    let readable := b.readableBytes
    (b.copy b.readerIndex b.writerIndex kCheapPrepend).map fun b =>
      { b with
          readerIndex := kCheapPrepend
          writerIndex := kCheapPrepend + readable }

def ensureWriteableBytes (b : WordBuffer) (len : UInt64) : Option WordBuffer :=
  if b.writableBytes < len then
    b.makeSpace len
  else
    some b

def append (b : WordBuffer) (data : List UInt8) : Option WordBuffer :=
  let len := UInt64.ofNat data.length
  (b.ensureWriteableBytes len).bind fun b =>
    (b.buffer.writeCells b.writerIndex.toNat data).map fun buffer =>
      { b with buffer := buffer, writerIndex := b.writerIndex + len }

def toBuffer (b : WordBuffer) : Buffer where
  buffer := b.buffer
  readerIndex := b.readerIndex.toNat
  writerIndex := b.writerIndex.toNat

def SIZE_MAX : Nat := 0xffffffffffffffff

theorem toNat_le (x : UInt64) : x.toNat ≤ SIZE_MAX := by
  have := x.toNat_lt
  unfold SIZE_MAX
  omega

@[simp]
theorem toNat_kCheapPrepend : kCheapPrepend.toNat = Buffer.kCheapPrepend := rfl

theorem toNat_add {x y : UInt64} (h : x.toNat + y.toNat ≤ SIZE_MAX)
    : (x + y).toNat = x.toNat + y.toNat := by
  rw [UInt64.toNat_add]
  apply Nat.mod_eq_of_lt
  unfold SIZE_MAX at h
  omega

theorem toNat_ofNat {n : Nat} (h : n ≤ SIZE_MAX) : (UInt64.ofNat n).toNat = n := by
  apply UInt64.toNat_ofNat_of_lt'
  unfold SIZE_MAX at h
  rw [UInt64.size]
  omega

/--
The offsets are in order and the storage has a size.
-/
structure Valid (b : WordBuffer) : Prop where
  offsets : b.toBuffer.Valid
  size_le : b.buffer.length ≤ SIZE_MAX

theorem Valid.toNat_readableBytes {b : WordBuffer} (h : b.Valid)
    : b.readableBytes.toNat = b.toBuffer.readableBytes := by
  apply UInt64.toNat_sub_of_le
  exact UInt64.le_iff_toNat_le.mpr h.offsets.readerIndex_le

theorem Valid.toNat_writableBytes {b : WordBuffer} (h : b.Valid)
    : b.writableBytes.toNat = b.toBuffer.writableBytes := by
  have hsize : b.size.toNat = b.buffer.length := toNat_ofNat h.size_le
  unfold writableBytes
  rw [UInt64.toNat_sub_of_le, hsize]
  . rfl
  . rw [UInt64.le_iff_toNat_le, hsize]
    exact h.offsets.writerIndex_le

theorem toBuffer_new (initialSize : UInt64) (h : Buffer.kCheapPrepend + initialSize.toNat ≤ SIZE_MAX)
    : (new initialSize).toBuffer = Buffer.new initialSize.toNat := by
  have hsize : (kCheapPrepend + initialSize).toNat = Buffer.kCheapPrepend + initialSize.toNat :=
    toNat_add h
  simp only [toBuffer, new, Buffer.new, hsize, toNat_kCheapPrepend]

theorem Valid.toBuffer_retrieve {b : WordBuffer} (h : b.Valid) (len : UInt64)
    : (b.retrieve len).toBuffer = b.toBuffer.retrieve len.toNat := by
  have hreadable := h.toNat_readableBytes
  unfold retrieve Buffer.retrieve
  simp only [UInt64.lt_iff_toNat_lt, hreadable]
  split
  . next hlen =>
    have := toNat_le b.writerIndex
    unfold Buffer.readableBytes at hlen
    simp only [toBuffer] at hlen ⊢
    rw [toNat_add (by omega)]
  . rfl

theorem Valid.retrieveAllAsString_eq {b : WordBuffer} (h : b.Valid)
    : b.retrieveAllAsString = some (b.toBuffer.readable, b.retrieve b.readableBytes) := by
  have hreadable := h.toNat_readableBytes
  have hle := h.offsets.readerIndex_le
  have hsize := h.offsets.writerIndex_le
  unfold Buffer.readableBytes at hreadable
  simp only [toBuffer] at hreadable hle hsize
  unfold retrieveAllAsString reteieveAsString
  rw [List.readCells_eq]
  . rw [hreadable, Nat.add_sub_cancel' hle]
    rfl
  . omega

theorem Valid.toBuffer_resize {b : WordBuffer} {len : UInt64} (h : b.Valid)
    (hlen : b.writableBytes < len) (hsum : len.toNat + b.writerIndex.toNat ≤ SIZE_MAX)
    : (b.resize (len + b.writerIndex)).toBuffer
        = b.toBuffer.resize (len.toNat + b.writerIndex.toNat) := by
  have hgrows : b.buffer.length ≤ len.toNat + b.writerIndex.toNat := by
    rw [UInt64.lt_iff_toNat_lt, h.toNat_writableBytes] at hlen
    simp only [Buffer.writableBytes, toBuffer] at hlen
    omega
  simp only [toBuffer, resize, Buffer.resize]
  rw [toNat_add hsum, List.take_of_length_le hgrows]

theorem Valid.copy_eq {b : WordBuffer} (h : b.Valid) (hgap : Buffer.kCheapPrepend < b.readerIndex.toNat)
    : b.copy b.readerIndex b.writerIndex kCheapPrepend
        = some { b with buffer := b.buffer.overwrite Buffer.kCheapPrepend b.toBuffer.readable } := by
  have horder := h.offsets.readerIndex_le
  have hsize := h.offsets.writerIndex_le
  simp only [toBuffer] at horder hsize
  have hpositions : ¬(b.writerIndex < b.readerIndex
      ∨ b.readerIndex ≤ kCheapPrepend ∧ kCheapPrepend < b.writerIndex) := by
    simp only [UInt64.lt_iff_toNat_lt, UInt64.le_iff_toNat_le, toNat_kCheapPrepend]
    omega
  have hlength : (b.writerIndex - b.readerIndex).toNat = b.writerIndex.toNat - b.readerIndex.toNat :=
    h.toNat_readableBytes
  unfold copy
  rw [if_neg hpositions, hlength, toNat_kCheapPrepend, List.copyCells_eq]
  . rw [Nat.add_sub_cancel' horder]
    rfl
  . omega
  . omega

/--
The range is moved only if there is a gap in front of it.
-/
theorem Valid.makeSpace_eq {b : WordBuffer} (h : b.Valid) {len : UInt64}
    (hlen : b.writableBytes < len) (hsum : len.toNat + b.writerIndex.toNat ≤ SIZE_MAX)
    : ∃ b', b.makeSpace len = some b' ∧ b'.toBuffer = b.toBuffer.makeSpace len.toNat := by
  have hfront := h.offsets.kCheapPrepend_le
  have horder := h.offsets.readerIndex_le
  have hsize := h.offsets.writerIndex_le
  have hreadable := h.toNat_readableBytes
  have hwritable := h.toNat_writableBytes
  simp only [toBuffer] at hfront horder hsize
  have hroom : (b.writableBytes + b.prependableBytes).toNat
      = b.toBuffer.writableBytes + b.toBuffer.prependableBytes := by
    have := h.size_le
    unfold prependableBytes Buffer.prependableBytes
    rw [toNat_add, hwritable]
    . rfl
    . rw [hwritable]
      simp only [Buffer.writableBytes, toBuffer]
      omega
  have hneeded : (len + kCheapPrepend).toNat = len.toNat + Buffer.kCheapPrepend := by
    apply toNat_add
    rw [toNat_kCheapPrepend]
    omega
  unfold makeSpace Buffer.makeSpace
  simp only [UInt64.lt_iff_toNat_lt, hroom, hneeded]
  split
  . exact ⟨_, rfl, h.toBuffer_resize hlen hsum⟩
  . next hfits =>
    rw [UInt64.lt_iff_toNat_lt, hwritable] at hlen
    have hgap : Buffer.kCheapPrepend < b.readerIndex.toNat := by
      simp only [Buffer.prependableBytes, toBuffer] at hfits hlen
      omega
    have hend : (kCheapPrepend + b.readableBytes).toNat
        = Buffer.kCheapPrepend + b.toBuffer.readableBytes := by
      have := toNat_le b.writerIndex
      rw [toNat_add, hreadable]
      . rfl
      . rw [toNat_kCheapPrepend, hreadable]
        simp only [Buffer.readableBytes, toBuffer]
        omega
    rw [h.copy_eq hgap]
    refine ⟨_, rfl, ?_⟩
    simp only [toBuffer, hend, toNat_kCheapPrepend]

theorem Valid.ensureWriteableBytes_eq {b : WordBuffer} (h : b.Valid) {len : UInt64}
    (hsum : len.toNat + b.writerIndex.toNat ≤ SIZE_MAX)
    : ∃ b', b.ensureWriteableBytes len = some b' ∧ b'.Valid
        ∧ b'.toBuffer = b.toBuffer.ensureWriteableBytes len.toNat := by
  have heq : ∃ b', b.ensureWriteableBytes len = some b'
      ∧ b'.toBuffer = b.toBuffer.ensureWriteableBytes len.toNat := by
    unfold ensureWriteableBytes Buffer.ensureWriteableBytes
    rw [← h.toNat_writableBytes]
    simp only [← UInt64.lt_iff_toNat_lt]
    split
    . next hlen => exact h.makeSpace_eq hlen hsum
    . exact ⟨b, rfl, rfl⟩
  obtain ⟨b', hb', hbuffer⟩ := heq
  refine ⟨b', hb', ⟨?_, ?_⟩, hbuffer⟩
  . rw [hbuffer]
    exact Buffer.valid_ensureWriteableBytes h.offsets _
  . have hgrown := Buffer.length_ensureWriteableBytes_le h.offsets len.toNat
    have := h.size_le
    rw [← hbuffer] at hgrown
    simp only [toBuffer] at hgrown
    omega

theorem Valid.append_eq {b : WordBuffer} (h : b.Valid) {data : List UInt8}
    (hsum : data.length + b.writerIndex.toNat ≤ SIZE_MAX)
    : ∃ b', b.append data = some b' ∧ b'.Valid ∧ b'.toBuffer = b.toBuffer.append data := by
  have hlen : (UInt64.ofNat data.length).toNat = data.length := toNat_ofNat (by omega)
  obtain ⟨b₁, hb₁, hvalid, hbuffer⟩ := h.ensureWriteableBytes_eq (hlen.symm ▸ hsum)
  rw [hlen] at hbuffer
  have hbefore := Buffer.writerIndex_ensureWriteableBytes_le h.offsets data.length
  have hroom := Buffer.writableBytes_ensureWriteableBytes h.offsets data.length
  have hsize := hvalid.offsets.writerIndex_le
  have hsize_le := hvalid.size_le
  rw [← hbuffer] at hbefore hroom
  simp only [Buffer.writableBytes, toBuffer] at hbefore hroom hsize
  have hend : (b₁.writerIndex + .ofNat data.length).toNat = b₁.writerIndex.toNat + data.length := by
    rw [toNat_add, hlen]
    omega
  have hfits : b₁.writerIndex.toNat + data.length ≤ b₁.buffer.length := by omega
  have heq : b.append data = some { b₁ with
      buffer := b₁.buffer.overwrite b₁.writerIndex.toNat data
      writerIndex := b₁.writerIndex + .ofNat data.length } := by
    unfold append
    dsimp only
    rw [hb₁, Option.bind_some, List.writeCells_eq _ _ _ hfits, Option.map_some]
  have hafter : ({ b₁ with
      buffer := b₁.buffer.overwrite b₁.writerIndex.toNat data
      writerIndex := b₁.writerIndex + .ofNat data.length } : WordBuffer).toBuffer
        = b.toBuffer.append data := by
    unfold Buffer.append
    dsimp only
    rw [← hbuffer]
    simp only [toBuffer, hend]
  refine ⟨_, heq, ⟨?_, ?_⟩, hafter⟩
  . rw [hafter]
    exact Buffer.valid_append h.offsets data
  . dsimp only
    rw [List.length_overwrite _ _ _ hfits]
    exact hsize_le

end WordBuffer

end MyMuduo
