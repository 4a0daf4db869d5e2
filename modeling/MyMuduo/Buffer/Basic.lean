import MyMuduo.Data.Segment

/-!
This module contains the byte buffer of a connection: a block of storage with a reserve of
`kCheapPrepend` bytes in front and two offsets into it. The bytes between the offsets are the
readable ones.
-/

namespace MyMuduo

structure Buffer where
  buffer : List UInt8
  readerIndex : Nat
  writerIndex : Nat
  deriving DecidableEq, Repr

namespace Buffer

def kCheapPrepend : Nat := 8

def kInitialSize : Nat := 1024

def new (initialSize : Nat) : Buffer where
  buffer := List.replicate (kCheapPrepend + initialSize) 0
  readerIndex := kCheapPrepend
  writerIndex := kCheapPrepend

def readableBytes (b : Buffer) : Nat :=
  b.writerIndex - b.readerIndex

def writableBytes (b : Buffer) : Nat :=
  b.buffer.length - b.writerIndex

def prependableBytes (b : Buffer) : Nat :=
  b.readerIndex

-- the bytes that `peek()` and `readableBytes()` delimit
def readable (b : Buffer) : List UInt8 :=
  b.buffer.segment b.readerIndex b.writerIndex

def retrieveAll (b : Buffer) : Buffer :=
  { b with readerIndex := kCheapPrepend, writerIndex := kCheapPrepend }

def retrieve (b : Buffer) (len : Nat) : Buffer :=
  if len < b.readableBytes then
    { b with readerIndex := b.readerIndex + len }
  else
    b.retrieveAll

-- `std::vector::resize`, only ever to a size that is not smaller
def resize (b : Buffer) (size : Nat) : Buffer :=
  { b with buffer := b.buffer ++ List.replicate (size - b.buffer.length) 0 }

def makeSpace (b : Buffer) (len : Nat) : Buffer :=
  if b.writableBytes + b.prependableBytes < len + kCheapPrepend then
    b.resize (len + b.writerIndex)
  else
    let readable := b.readableBytes
    { b with
        buffer := b.buffer.overwrite kCheapPrepend b.readable
        readerIndex := kCheapPrepend
        writerIndex := kCheapPrepend + readable }

def ensureWriteableBytes (b : Buffer) (len : Nat) : Buffer :=
  if b.writableBytes < len then
    b.makeSpace len
  else
    b

def append (b : Buffer) (data : List UInt8) : Buffer :=
  let b := b.ensureWriteableBytes data.length
  { b with
      buffer := b.buffer.overwrite b.writerIndex data
      writerIndex := b.writerIndex + data.length }

structure Valid (b : Buffer) : Prop where
  kCheapPrepend_le : kCheapPrepend ≤ b.readerIndex
  readerIndex_le : b.readerIndex ≤ b.writerIndex
  writerIndex_le : b.writerIndex ≤ b.buffer.length

theorem valid_new (initialSize : Nat) : (new initialSize).Valid := by
  constructor <;> simp [new]

@[simp]
theorem readable_new (initialSize : Nat) : (new initialSize).readable = [] := by
  simp [new, readable]

theorem Valid.length_readable {b : Buffer} (h : b.Valid) : b.readable.length = b.readableBytes := by
  unfold readable readableBytes
  rw [List.length_segment _ _ _ h.writerIndex_le]

theorem valid_retrieveAll {b : Buffer} (h : b.Valid) : b.retrieveAll.Valid := by
  have := h.kCheapPrepend_le
  have := h.readerIndex_le
  have := h.writerIndex_le
  constructor <;> simp only [retrieveAll] <;> omega

theorem valid_retrieve {b : Buffer} (h : b.Valid) (len : Nat) : (b.retrieve len).Valid := by
  have := h.kCheapPrepend_le
  have := h.readerIndex_le
  have := h.writerIndex_le
  unfold retrieve
  split
  . next hlen =>
    unfold readableBytes at hlen
    constructor <;> dsimp only <;> omega
  . exact valid_retrieveAll h

theorem readable_retrieve {b : Buffer} (h : b.Valid) (len : Nat)
    : (b.retrieve len).readable = b.readable.drop len := by
  unfold retrieve
  split
  . unfold readable
    rw [List.drop_segment]
  . next hlen =>
    have hdrop : b.readable.drop len = [] := by
      apply List.drop_eq_nil_of_le
      rw [h.length_readable]
      omega
    rw [hdrop]
    exact List.segment_self _ _

theorem valid_resize {b : Buffer} (h : b.Valid) (size : Nat) : (b.resize size).Valid := by
  have := h.writerIndex_le
  refine ⟨h.kCheapPrepend_le, h.readerIndex_le, ?_⟩
  simp only [resize, List.length_append]
  omega

theorem readable_resize {b : Buffer} (h : b.Valid) (size : Nat)
    : (b.resize size).readable = b.readable := by
  unfold readable resize
  rw [List.segment_append_left _ _ _ h.writerIndex_le]

theorem Valid.readable_fits {b : Buffer} (h : b.Valid)
    : kCheapPrepend + b.readable.length ≤ b.buffer.length := by
  have := h.kCheapPrepend_le
  have := h.readerIndex_le
  have := h.writerIndex_le
  rw [h.length_readable, readableBytes]
  omega

theorem valid_makeSpace {b : Buffer} (h : b.Valid) (len : Nat) : (b.makeSpace len).Valid := by
  unfold makeSpace
  split
  . exact valid_resize h _
  . have hfits := h.readable_fits
    constructor
    . exact Nat.le_refl _
    . exact Nat.le_add_right _ _
    . dsimp only
      rw [List.length_overwrite _ _ _ hfits]
      rw [h.length_readable] at hfits
      exact hfits

theorem readable_makeSpace {b : Buffer} (h : b.Valid) (len : Nat)
    : (b.makeSpace len).readable = b.readable := by
  unfold makeSpace
  split
  . exact readable_resize h _
  . have hfits := h.readable_fits
    rw [← h.length_readable]
    conv => lhs; unfold readable
    dsimp only
    rw [List.segment_overwrite_self _ _ _ (Nat.le_of_add_right_le hfits)]
    rfl

theorem writableBytes_makeSpace {b : Buffer} (h : b.Valid) (len : Nat)
    : len ≤ (b.makeSpace len).writableBytes := by
  have := h.kCheapPrepend_le
  have := h.readerIndex_le
  have := h.writerIndex_le
  unfold makeSpace
  split
  . simp only [writableBytes, resize, List.length_append, List.length_replicate]
    omega
  . next hroom =>
    simp only [writableBytes, prependableBytes, Nat.not_lt] at hroom
    dsimp only [writableBytes, readableBytes]
    rw [List.length_overwrite _ _ _ h.readable_fits]
    omega

theorem valid_ensureWriteableBytes {b : Buffer} (h : b.Valid) (len : Nat)
    : (b.ensureWriteableBytes len).Valid := by
  unfold ensureWriteableBytes
  split
  . exact valid_makeSpace h len
  . exact h

theorem readable_ensureWriteableBytes {b : Buffer} (h : b.Valid) (len : Nat)
    : (b.ensureWriteableBytes len).readable = b.readable := by
  unfold ensureWriteableBytes
  split
  . exact readable_makeSpace h len
  . rfl

theorem writableBytes_ensureWriteableBytes {b : Buffer} (h : b.Valid) (len : Nat)
    : len ≤ (b.ensureWriteableBytes len).writableBytes := by
  unfold ensureWriteableBytes
  split
  . exact writableBytes_makeSpace h len
  . omega

theorem writerIndex_ensureWriteableBytes_le {b : Buffer} (h : b.Valid) (len : Nat)
    : (b.ensureWriteableBytes len).writerIndex ≤ b.writerIndex := by
  have := h.kCheapPrepend_le
  have := h.readerIndex_le
  unfold ensureWriteableBytes makeSpace
  split
  . split
    . exact Nat.le_refl _
    . simp only [readableBytes]
      omega
  . exact Nat.le_refl _

theorem length_ensureWriteableBytes_le {b : Buffer} (h : b.Valid) (len : Nat)
    : (b.ensureWriteableBytes len).buffer.length ≤ max b.buffer.length (len + b.writerIndex) := by
  unfold ensureWriteableBytes makeSpace
  split
  . split
    . simp only [resize, List.length_append, List.length_replicate]
      omega
    . dsimp only
      rw [List.length_overwrite _ _ _ h.readable_fits]
      apply Nat.le_max_left
  . apply Nat.le_max_left

theorem valid_append {b : Buffer} (h : b.Valid) (data : List UInt8) : (b.append data).Valid := by
  have hv := valid_ensureWriteableBytes h data.length
  have hroom := writableBytes_ensureWriteableBytes h data.length
  have := hv.kCheapPrepend_le
  have := hv.readerIndex_le
  have := hv.writerIndex_le
  unfold writableBytes at hroom
  refine ⟨hv.kCheapPrepend_le, ?_, ?_⟩
  . dsimp only [append]
    omega
  . dsimp only [append]
    rw [List.length_overwrite]
    . omega
    . omega

theorem readable_append {b : Buffer} (h : b.Valid) (data : List UInt8)
    : (b.append data).readable = b.readable ++ data := by
  have hv := valid_ensureWriteableBytes h data.length
  rw [← readable_ensureWriteableBytes h data.length]
  unfold append readable
  dsimp only
  rw [← List.segment_append _ hv.readerIndex_le (Nat.le_add_right _ _)]
  rw [List.segment_overwrite_before _ _ _ hv.writerIndex_le (Nat.le_refl _)]
  rw [List.segment_overwrite_self _ _ _ hv.writerIndex_le]

end Buffer

/--
A buffer together with the order of its offsets, which every operation keeps.
-/
structure ByteBuffer extends Buffer where
  valid : toBuffer.Valid

namespace ByteBuffer

def new (initialSize : Nat) : ByteBuffer :=
  ⟨Buffer.new initialSize, Buffer.valid_new initialSize⟩

def retrieve (b : ByteBuffer) (len : Nat) : ByteBuffer :=
  ⟨b.toBuffer.retrieve len, Buffer.valid_retrieve b.valid len⟩

def append (b : ByteBuffer) (data : List UInt8) : ByteBuffer :=
  ⟨b.toBuffer.append data, Buffer.valid_append b.valid data⟩

@[simp]
theorem readable_new (initialSize : Nat) : (new initialSize).readable = [] := by
  simp [new]

@[simp]
theorem readable_retrieve (b : ByteBuffer) (len : Nat)
    : (b.retrieve len).readable = b.readable.drop len :=
  Buffer.readable_retrieve b.valid len

@[simp]
theorem readable_append (b : ByteBuffer) (data : List UInt8)
    : (b.append data).readable = b.readable ++ data :=
  Buffer.readable_append b.valid data

theorem readableBytes_eq (b : ByteBuffer) : b.readableBytes = b.readable.length :=
  (Buffer.Valid.length_readable b.valid).symm

end ByteBuffer

end MyMuduo
