import Mathlib.Algebra.Ring.Nat
import MyMuduo.Buffer.Words

/-!
This module contains the buffer as a queue of bytes: any sequence of its operations succeeds and gives
the results of the same sequence on the list of the readable bytes.
-/

namespace MyMuduo

inductive BufferOp where
  | append (data : List UInt8)
  | retrieve (len : UInt64)
  | retrieveAll
  | ensureWriteableBytes (len : UInt64)
  | retrieveAllAsString
  deriving DecidableEq, Repr

namespace BufferOp

-- the length that an operation adds to a sum of type `size_t`
def added : BufferOp → Nat
  | append data => data.length
  | ensureWriteableBytes len => len.toNat
  | retrieve _ | retrieveAll | retrieveAllAsString => 0

def sum (ops : List BufferOp) : Nat :=
  (ops.map added).sum

end BufferOp

/--
The specification: a queue of bytes, where reserving space does nothing.
-/
def ByteQueue.step (q : List UInt8) : BufferOp → List UInt8 × Option (List UInt8)
  | .append data => (q ++ data, none)
  | .retrieve len => (q.drop (min len.toNat q.length), none)
  | .retrieveAll => ([], none)
  | .ensureWriteableBytes _ => (q, none)
  | .retrieveAllAsString => ([], some q)

def ByteQueue.run (q : List UInt8) : List BufferOp → List UInt8 × List (Option (List UInt8))
  | [] => (q, [])
  | op :: ops =>
    let (q', result) := step q op
    let (q'', results) := run q' ops
    (q'', result :: results)

namespace WordBuffer

def step (b : WordBuffer) : BufferOp → Option (WordBuffer × Option (List UInt8))
  | .append data => (b.append data).map (·, none)
  | .retrieve len => some (b.retrieve len, none)
  | .retrieveAll => some (b.retrieveAll, none)
  | .ensureWriteableBytes len => (b.ensureWriteableBytes len).map (·, none)
  | .retrieveAllAsString => b.retrieveAllAsString.map fun res => (res.2, some res.1)

def run (b : WordBuffer) : List BufferOp → Option (WordBuffer × List (Option (List UInt8)))
  | [] => some (b, [])
  | op :: ops =>
    match b.step op with
    | none => none
    | some (b', result) => (b'.run ops).map fun res => (res.1, result :: res.2)

def toQueue (b : WordBuffer) : List UInt8 :=
  b.toBuffer.readable

theorem valid_new (initialSize : UInt64) (h : Buffer.kCheapPrepend + initialSize.toNat ≤ SIZE_MAX)
    : (new initialSize).Valid := by
  constructor
  . rw [toBuffer_new initialSize h]
    exact Buffer.valid_new _
  . simp only [new, List.length_replicate]
    exact toNat_le _

theorem Valid.retrieve {b : WordBuffer} (h : b.Valid) (len : UInt64) : (b.retrieve len).Valid := by
  constructor
  . rw [h.toBuffer_retrieve]
    exact Buffer.valid_retrieve h.offsets _
  . unfold WordBuffer.retrieve
    split <;> exact h.size_le

theorem Valid.toQueue_retrieve {b : WordBuffer} (h : b.Valid) (len : UInt64)
    : (b.retrieve len).toQueue = b.toQueue.drop len.toNat := by
  unfold toQueue
  rw [h.toBuffer_retrieve, Buffer.readable_retrieve h.offsets]

theorem Valid.toQueue_retrieveAll {b : WordBuffer} (h : b.Valid)
    : (b.retrieve b.readableBytes).toQueue = [] := by
  rw [h.toQueue_retrieve, h.toNat_readableBytes, ← h.offsets.length_readable]
  exact List.drop_length

theorem Valid.writerIndex_retrieve_le {b : WordBuffer} (h : b.Valid) (len : UInt64)
    : (b.retrieve len).writerIndex.toNat ≤ b.writerIndex.toNat := by
  have := h.offsets.kCheapPrepend_le
  have := h.offsets.readerIndex_le
  unfold WordBuffer.retrieve
  split
  . exact Nat.le_refl _
  . simp only [retrieveAll, toNat_kCheapPrepend]
    simp only [toBuffer] at *
    omega

/--
An operation succeeds, does to the readable bytes what it does to the queue, and moves the writing
offset by no more than the length it adds.
-/
theorem Valid.step {b : WordBuffer} (h : b.Valid) (op : BufferOp)
    (hsum : op.added + b.writerIndex.toNat ≤ SIZE_MAX)
    : ∃ b' result, b.step op = some (b', result) ∧ b'.Valid
        ∧ ByteQueue.step b.toQueue op = (b'.toQueue, result)
        ∧ b'.writerIndex.toNat ≤ op.added + b.writerIndex.toNat := by
  cases op with
  | append data =>
    obtain ⟨b', hb', hvalid, hbuffer⟩ := h.append_eq hsum
    have hindex := Buffer.writerIndex_ensureWriteableBytes_le h.offsets data.length
    refine ⟨b', none, by simp [WordBuffer.step, hb'], hvalid, ?_, ?_⟩
    . simp only [ByteQueue.step, toQueue, hbuffer, Buffer.readable_append h.offsets]
    . have heq : b'.writerIndex.toNat
          = (b.toBuffer.ensureWriteableBytes data.length).writerIndex + data.length :=
        congrArg Buffer.writerIndex hbuffer
      simp only [BufferOp.added, toBuffer] at *
      omega
  | retrieve len =>
    refine ⟨_, none, rfl, h.retrieve len, ?_, ?_⟩
    . simp only [ByteQueue.step, h.toQueue_retrieve]
      rw [← List.drop_eq_drop_min]
    . simpa [BufferOp.added] using h.writerIndex_retrieve_le len
  | retrieveAll =>
    have heq : b.retrieveAll = b.retrieve b.readableBytes := by
      simp [WordBuffer.retrieve]
    refine ⟨_, none, rfl, ?_, ?_, ?_⟩
    . rw [heq]
      exact h.retrieve _
    . rw [heq, h.toQueue_retrieveAll]
      rfl
    . rw [heq]
      simpa [BufferOp.added] using h.writerIndex_retrieve_le _
  | ensureWriteableBytes len =>
    obtain ⟨b', hb', hvalid, hbuffer⟩ := h.ensureWriteableBytes_eq hsum
    have hindex := Buffer.writerIndex_ensureWriteableBytes_le h.offsets len.toNat
    refine ⟨b', none, by simp [WordBuffer.step, hb'], hvalid, ?_, ?_⟩
    . simp only [ByteQueue.step, toQueue, hbuffer, Buffer.readable_ensureWriteableBytes h.offsets]
    . rw [← hbuffer] at hindex
      simp only [BufferOp.added, toBuffer] at *
      omega
  | retrieveAllAsString =>
    refine ⟨b.retrieve b.readableBytes, some b.toQueue, ?_, h.retrieve _, ?_, ?_⟩
    . simp only [WordBuffer.step, h.retrieveAllAsString_eq, Option.map_some]
      rfl
    . rw [h.toQueue_retrieveAll]
      rfl
    . simpa [BufferOp.added] using h.writerIndex_retrieve_le _

theorem Valid.run {b : WordBuffer} (h : b.Valid) (ops : List BufferOp)
    (hsum : BufferOp.sum ops + b.writerIndex.toNat ≤ SIZE_MAX)
    : ∃ b' results, b.run ops = some (b', results) ∧ b'.Valid
        ∧ ByteQueue.run b.toQueue ops = (b'.toQueue, results) := by
  induction ops generalizing b with
  | nil => exact ⟨b, [], rfl, h, rfl⟩
  | cons op ops ih =>
    simp only [BufferOp.sum, List.map_cons, List.sum_cons] at hsum ih
    obtain ⟨b₁, result, hstep, hvalid, hqueue, hindex⟩ := h.step op (by omega)
    obtain ⟨b₂, results, hrun, hvalid', hqueue'⟩ := ih hvalid (by omega)
    refine ⟨b₂, result :: results, ?_, hvalid', ?_⟩
    . simp [WordBuffer.run, hstep, hrun]
    . simp [ByteQueue.run, hqueue, hqueue']

theorem Valid.writableBytes_of_run {b b' : WordBuffer} (h : b.Valid) {before : List BufferOp}
    {len : UInt64} {results : List (Option (List UInt8))}
    (hsum : BufferOp.sum (before ++ [.ensureWriteableBytes len]) + b.writerIndex.toNat ≤ SIZE_MAX)
    (hrun : b.run (before ++ [.ensureWriteableBytes len]) = some (b', results))
    : len ≤ b'.writableBytes := by
  induction before generalizing b results with
  | nil =>
    simp only [BufferOp.sum, List.nil_append, List.map_cons, List.map_nil, List.sum_cons,
      List.sum_nil] at hsum
    obtain ⟨b₁, hb₁, hvalid, hbuffer⟩ := h.ensureWriteableBytes_eq hsum
    simp only [List.nil_append, WordBuffer.run, WordBuffer.step, hb₁, Option.map_some,
      Option.some.injEq, Prod.mk.injEq] at hrun
    rw [← hrun.1, UInt64.le_iff_toNat_le, hvalid.toNat_writableBytes, hbuffer]
    exact Buffer.writableBytes_ensureWriteableBytes h.offsets _
  | cons op ops ih =>
    simp only [BufferOp.sum, List.cons_append, List.map_cons, List.sum_cons] at hsum ih
    obtain ⟨b₁, result, hstep, hvalid, _, hindex⟩ := h.step op (by omega)
    simp only [List.cons_append, WordBuffer.run, hstep, Option.map_eq_some_iff, Prod.mk.injEq] at hrun
    obtain ⟨last, hrun, rfl, _⟩ := hrun
    exact ih hvalid (by omega) hrun

/--
From any initial size, any sequence of operations whose sums do not overflow stays inside the storage
and is the sequence on the queue of bytes; a reservation at its end has made its room.
-/
theorem byte_queue (initialSize : UInt64) (ops : List BufferOp)
    (hinit : Buffer.kCheapPrepend + initialSize.toNat ≤ SIZE_MAX)
    (hsum : Buffer.kCheapPrepend + BufferOp.sum ops ≤ SIZE_MAX)
    : ∃ b results, (new initialSize).run ops = some (b, results)
        ∧ kCheapPrepend ≤ b.readerIndex ∧ b.readerIndex ≤ b.writerIndex
        ∧ b.writerIndex ≤ b.size ∧ b.size.toNat = b.buffer.length
        ∧ ByteQueue.run [] ops = (b.toQueue, results)
        ∧ ∀ before len, ops = before ++ [.ensureWriteableBytes len] → len ≤ b.writableBytes := by
  have hnew := valid_new initialSize hinit
  have hempty : (new initialSize).toQueue = [] := by
    rw [toQueue, toBuffer_new initialSize hinit, Buffer.readable_new]
  have hsum' : BufferOp.sum ops + (new initialSize).writerIndex.toNat ≤ SIZE_MAX := by
    rw [Nat.add_comm]
    exact hsum
  obtain ⟨b, results, hrun, hvalid, hqueue⟩ := hnew.run ops hsum'
  have hsize : b.size.toNat = b.buffer.length := toNat_ofNat hvalid.size_le
  refine ⟨b, results, hrun, ?_, ?_, ?_, hsize, hempty ▸ hqueue, ?_⟩
  . exact UInt64.le_iff_toNat_le.mpr hvalid.offsets.kCheapPrepend_le
  . exact UInt64.le_iff_toNat_le.mpr hvalid.offsets.readerIndex_le
  . rw [UInt64.le_iff_toNat_le, hsize]
    exact hvalid.offsets.writerIndex_le
  . intro before len hops
    subst hops
    exact hnew.writableBytes_of_run hsum' hrun

-- a reservation beyond the initial size, a partial read, and a read of the rest
theorem byte_queue_grown
    : ∃ b, (new 2).run [.append [1, 2, 3], .retrieve 1, .ensureWriteableBytes 4, .retrieveAllAsString]
          = some (b, [none, none, none, some [2, 3]])
        ∧ b.writerIndex ≤ b.size ∧ b.toQueue = [] := by
  obtain ⟨b, results, hrun, _, _, hsize, _, hqueue, _⟩ :=
    byte_queue 2 [.append [1, 2, 3], .retrieve 1, .ensureWriteableBytes 4, .retrieveAllAsString]
      (by decide) (by decide)
  have hspec : ByteQueue.run [] [.append [1, 2, 3], .retrieve 1, .ensureWriteableBytes 4,
      .retrieveAllAsString] = ([], [none, none, none, some [2, 3]]) := rfl
  rw [hspec, Prod.mk.injEq] at hqueue
  refine ⟨b, ?_, hsize, hqueue.1.symm⟩
  rw [hrun, hqueue.2]

end WordBuffer

end MyMuduo
