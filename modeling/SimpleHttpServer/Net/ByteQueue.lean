import SimpleHttpServer.Net.Buffer

/-!
# `Buffer` is a FIFO byte queue

`Wf` is the index invariant of `Buffer.h`: `kCheapPrepend ≤ readerIndex_ ≤ writerIndex_ ≤
buffer_.size()`. Every operation keeps it, and acts on the readable bytes as a queue operation:
`append` and `readFd` push at the back, `retrieve` drops from the front, `makeSpace` does nothing.

* `fifo ops` is the abstract queue after the operations `ops`;
* `Admissible` is what a caller owes: `retrieveUntil` and `retrieveAsString` stay inside the
  readable region, a `std::string` is shorter than `2^31`, `readv` delivers at most its capacity;
* **`run_refines_fifo`**: an admissible run never goes wrong, keeps `Wf`, and leaves exactly the
  queue's bytes readable.

`ByteQueue` is a buffer with its invariant: what the rest of the development holds buffers in.
-/

namespace SimpleHttpServer

open Lib.Store

namespace Buffer

/-- The indices are in order. -/
structure Wf (b : Buffer) : Prop where
  prepend_le : kCheapPrepend ≤ b.readerIndex
  reader_le : b.readerIndex ≤ b.writerIndex
  writer_le : b.writerIndex ≤ b.buffer.length

variable {b : Buffer}

theorem length_readable (hb : b.Wf) : b.readable.length = b.readableBytes :=
  length_slice hb.writer_le

/-! ## Reading -/

theorem new_wf (n : Nat) : (new n).Wf :=
  ⟨Nat.le_refl _, Nat.le_refl _, by simp [new]⟩

@[simp] theorem readable_new (n : Nat) : (new n).readable = [] := slice_self _ _

theorem retrieveAll_wf (hb : b.Wf) : b.retrieveAll.Wf :=
  ⟨Nat.le_refl _, Nat.le_refl _,
    Nat.le_trans hb.prepend_le (Nat.le_trans hb.reader_le hb.writer_le)⟩

@[simp] theorem readable_retrieveAll (b : Buffer) : b.retrieveAll.readable = [] := slice_self _ _

theorem retrieve_wf (hb : b.Wf) (len : Nat) : (b.retrieve len).Wf := by
  unfold retrieve
  split
  · rename_i h
    unfold readableBytes at h
    exact ⟨Nat.le_add_right_of_le hb.prepend_le, by simp only; omega, hb.writer_le⟩
  · exact retrieveAll_wf hb

/-- `retrieve` drops from the front; more than is readable empties the queue. -/
theorem readable_retrieve (hb : b.Wf) (len : Nat) :
    (b.retrieve len).readable = b.readable.drop len := by
  unfold retrieve
  split
  · exact (drop_slice _ _ _ _).symm
  · rename_i h
    rw [readable_retrieveAll, List.drop_eq_nil_of_le]
    rw [length_readable hb]
    omega

/-- Retrieving in two calls, when the first leaves something. -/
theorem retrieve_retrieve {n k : Nat} (hk : 0 < k) (h : n + k ≤ b.readableBytes) :
    (b.retrieve n).retrieve k = b.retrieve (n + k) := by
  have hleft : readableBytes { b with readerIndex := b.readerIndex + n } = b.readableBytes - n := by
    unfold readableBytes
    simp only
    omega
  have hlt : n < b.readableBytes := by omega
  simp only [retrieve, if_pos hlt, hleft]
  by_cases hlt' : n + k < b.readableBytes
  · rw [if_pos hlt', if_pos (by omega), Nat.add_assoc]
  · rw [if_neg hlt', if_neg (by omega)]
    rfl

theorem retrieveAsString_fst (hb : b.Wf) {len : Nat} (h : len ≤ b.readableBytes) :
    (b.retrieveAsString len).1 = b.readable.take len := by
  have hr := hb.reader_le
  unfold readableBytes at h
  exact (take_slice (by unfold peek; omega)).symm

/-! ## Making room -/

theorem makeSpace_wf (hb : b.Wf) (len : Nat) : (b.makeSpace len).Wf := by
  obtain ⟨h₁, h₂, h₃⟩ := hb
  unfold makeSpace
  split
  · exact ⟨h₁, h₂, by simp⟩
  · refine ⟨Nat.le_refl _, Nat.le_add_right _ _, ?_⟩
    simp only [readableBytes]
    rw [length_overwrite (by rw [length_slice h₃]; omega)]
    omega

/-- Both branches of `makeSpace` keep the readable bytes. -/
theorem readable_makeSpace (hb : b.Wf) (len : Nat) : (b.makeSpace len).readable = b.readable := by
  obtain ⟨h₁, h₂, h₃⟩ := hb
  unfold makeSpace
  split
  · exact slice_resize 0 (Nat.le_add_right _ _) h₃
  · have hl : (slice b.buffer b.readerIndex b.writerIndex).length = b.readableBytes :=
      length_slice h₃
    unfold readable
    simp only
    rw [← hl, slice_overwrite_self (by omega)]

theorem le_writableBytes_makeSpace (hb : b.Wf) (len : Nat) :
    len ≤ (b.makeSpace len).writableBytes := by
  obtain ⟨h₁, h₂, h₃⟩ := hb
  unfold makeSpace writableBytes
  split
  · simp
  · rename_i h
    unfold prependableBytes at h
    simp only [readableBytes]
    rw [length_overwrite (by rw [length_slice h₃]; omega)]
    omega

theorem ensureWritableBytes_wf (hb : b.Wf) (len : Nat) : (b.ensureWritableBytes len).Wf := by
  unfold ensureWritableBytes
  split
  · exact makeSpace_wf hb len
  · exact hb

theorem readable_ensureWritableBytes (hb : b.Wf) (len : Nat) :
    (b.ensureWritableBytes len).readable = b.readable := by
  unfold ensureWritableBytes
  split
  · exact readable_makeSpace hb len
  · rfl

theorem le_writableBytes_ensureWritableBytes (hb : b.Wf) (len : Nat) :
    len ≤ (b.ensureWritableBytes len).writableBytes := by
  unfold ensureWritableBytes
  split
  · exact le_writableBytes_makeSpace hb len
  · omega

/-! ## Writing -/

theorem copyIn_wf (hb : b.Wf) {data : Bytes} (h : data.length ≤ b.writableBytes) :
    (b.copyIn data).Wf := by
  obtain ⟨h₁, h₂, h₃⟩ := hb
  unfold writableBytes at h
  refine ⟨h₁, Nat.le_add_right_of_le h₂, ?_⟩
  simp only [copyIn, beginWrite]
  rw [length_overwrite (by omega)]
  omega

theorem readable_copyIn (hb : b.Wf) (data : Bytes) :
    (b.copyIn data).readable = b.readable ++ data :=
  slice_overwrite_extend hb.reader_le hb.writer_le

theorem append_wf (hb : b.Wf) (data : Bytes) : (b.append data).Wf :=
  copyIn_wf (ensureWritableBytes_wf hb _) (le_writableBytes_ensureWritableBytes hb _)

theorem readable_append (hb : b.Wf) (data : Bytes) :
    (b.append data).readable = b.readable ++ data := by
  unfold append
  rw [readable_copyIn (ensureWritableBytes_wf hb _), readable_ensureWritableBytes hb]

/-- Whatever `append(std::string)` copies, it has made room for. -/
theorem appendString_wf (hb : b.Wf) {data : Bytes} {b' : Buffer}
    (h : b.appendString data = some b') : b'.Wf := by
  unfold appendString at h
  generalize toInt data.length = len at h
  simp only at h
  split at h
  · cases h
  · obtain rfl := Option.some.inj h
    have hroom := le_writableBytes_ensureWritableBytes hb len.toNat
    refine copyIn_wf (ensureWritableBytes_wf hb _) ?_
    rw [List.length_take]
    omega

/-- Below `2^31` bytes the two overloads agree. -/
theorem appendString_of_lt (b : Buffer) {data : Bytes} (h : data.length < 2 ^ 31) :
    b.appendString data = some (b.append data) := by
  unfold appendString append
  rw [toInt_of_lt h]
  simp

/-- `readFd` moves `writerIndex_` to the end of the vector before it appends the spill: that
buffer is well formed, and holds what `readv` put into `vec[0]`. -/
theorem readFd_bytes (hb : b.Wf) (data : Bytes) :
    (b.readFd (.bytes data)).1.Wf ∧
      (b.readFd (.bytes data)).1.readable = b.readable ++ data := by
  obtain ⟨h₁, h₂, h₃⟩ := hb
  unfold readFd
  simp only
  split
  · rename_i h
    rw [List.take_of_length_le h]
    unfold writableBytes at h
    refine ⟨⟨h₁, Nat.le_add_right_of_le h₂, ?_⟩, slice_overwrite_extend h₂ h₃⟩
    simp only
    rw [length_overwrite (by omega)]
    omega
  · rename_i h
    have hfill : (data.take b.writableBytes).length = b.writableBytes := by
      rw [List.length_take]
      omega
    have hend : b.writerIndex + b.writableBytes = b.buffer.length := by
      unfold writableBytes
      omega
    have hlen : (overwrite b.buffer b.writerIndex (data.take b.writableBytes)).length =
        b.buffer.length := length_overwrite (by omega)
    have hwf : Wf { b with
        buffer := overwrite b.buffer b.writerIndex (data.take b.writableBytes)
        writerIndex := (overwrite b.buffer b.writerIndex (data.take b.writableBytes)).length } :=
      ⟨h₁, by simp only; rw [hlen]; omega, Nat.le_refl _⟩
    refine ⟨append_wf hwf _, ?_⟩
    rw [readable_append hwf]
    have hslice : slice (overwrite b.buffer b.writerIndex (data.take b.writableBytes))
        b.readerIndex (b.writerIndex + (data.take b.writableBytes).length) =
          slice b.buffer b.readerIndex b.writerIndex ++ data.take b.writableBytes :=
      slice_overwrite_extend h₂ h₃
    rw [hfill, hend, ← hlen] at hslice
    unfold readable
    simp only
    rw [hslice, List.append_assoc, List.take_append_drop]

/-! ## Runs -/

/-- A call on the buffer. `retrieveUntil` is given the distance of its pointer from `peek()`. -/
inductive Op where
  | append (data : Bytes)
  | appendString (data : Bytes)
  | retrieve (len : Nat)
  | retrieveUntil (offset : Nat)
  | retrieveAll
  | retrieveAsString (len : Nat)
  | ensureWritableBytes (len : Nat)
  | readFd (r : ReadResult)

/-- The buffer after a call. -/
def step (b : Buffer) : Op → Option Buffer
  | .append data => some (b.append data)
  | .appendString data => b.appendString data
  | .retrieve len => some (b.retrieve len)
  | .retrieveUntil offset => some (b.retrieveUntil (b.peek + offset))
  | .retrieveAll => some b.retrieveAll
  | .retrieveAsString len => some (b.retrieveAsString len).2
  | .ensureWritableBytes len => some (b.ensureWritableBytes len)
  | .readFd r => some (b.readFd r).1

/-- Operations, one after another. -/
def run (b : Buffer) (ops : List Op) : Option Buffer := ops.foldlM step b

/-- What the caller, or `readv`, owes at a call. -/
def Op.Ok (b : Buffer) : Op → Prop
  | .appendString data => data.length < 2 ^ 31
  | .retrieveUntil offset => offset ≤ b.readableBytes
  | .retrieveAsString len => len ≤ b.readableBytes
  | .readFd (.bytes data) => data.length ≤ b.iovecCapacity
  | _ => True

instance (b : Buffer) : DecidablePred (Op.Ok b)
  | .appendString data => inferInstanceAs (Decidable (data.length < 2 ^ 31))
  | .retrieveUntil offset => inferInstanceAs (Decidable (offset ≤ b.readableBytes))
  | .retrieveAsString len => inferInstanceAs (Decidable (len ≤ b.readableBytes))
  | .readFd (.bytes data) => inferInstanceAs (Decidable (data.length ≤ b.iovecCapacity))
  | .append _ | .retrieve _ | .retrieveAll | .ensureWritableBytes _ | .readFd (.failed _) =>
    inferInstanceAs (Decidable True)

/-- Every call of the run is `Ok` where it is made. -/
def Admissible (b : Buffer) : List Op → Prop
  | [] => True
  | op :: ops => op.Ok b ∧ ∀ b', b.step op = some b' → Admissible b' ops

/-- The bytes a call puts into the queue. -/
def Op.input : Op → Bytes
  | .append data | .appendString data | .readFd (.bytes data) => data
  | _ => []

/-- The same call on the abstract queue. -/
def Op.fifo (q : Bytes) : Op → Bytes
  | .retrieve len | .retrieveUntil len | .retrieveAsString len => q.drop len
  | .retrieveAll => []
  | op => q ++ op.input

/-- The abstract queue after a run. -/
def fifo (q : Bytes) (ops : List Op) : Bytes := ops.foldl Op.fifo q

/-- **One call refines the queue operation.** -/
theorem step_refines_fifo (hb : b.Wf) {op : Op} (hop : op.Ok b) :
    ∃ b', b.step op = some b' ∧ b'.Wf ∧ b'.readable = op.fifo b.readable := by
  cases op with
  | append data => exact ⟨_, rfl, append_wf hb data, readable_append hb data⟩
  | appendString data =>
    have hlt : data.length < 2 ^ 31 := hop
    refine ⟨b.append data, ?_, append_wf hb data, readable_append hb data⟩
    rw [step, appendString_of_lt b hlt]
  | retrieve len => exact ⟨_, rfl, retrieve_wf hb len, readable_retrieve hb len⟩
  | retrieveUntil offset =>
    refine ⟨_, rfl, retrieve_wf hb _, ?_⟩
    rw [retrieveUntil, readable_retrieve hb, Nat.add_sub_cancel_left]
    rfl
  | retrieveAll => exact ⟨_, rfl, retrieveAll_wf hb, readable_retrieveAll b⟩
  | retrieveAsString len => exact ⟨_, rfl, retrieve_wf hb len, readable_retrieve hb len⟩
  | ensureWritableBytes len =>
    refine ⟨_, rfl, ensureWritableBytes_wf hb len, ?_⟩
    rw [readable_ensureWritableBytes hb]
    exact (List.append_nil _).symm
  | readFd r =>
    cases r with
    | bytes data => exact ⟨_, rfl, readFd_bytes hb data⟩
    | failed e => exact ⟨b, rfl, hb, (List.append_nil _).symm⟩

/-- A run from a well-formed buffer refines the run of the queue. -/
theorem run_refines_fifo : ∀ (ops : List Op) {b : Buffer}, b.Wf → Admissible b ops →
    ∃ b', run b ops = some b' ∧ b'.Wf ∧ b'.readable = fifo b.readable ops
  | [], b, hb, _ => ⟨b, rfl, hb, rfl⟩
  | op :: ops, b, hb, h => by
    obtain ⟨b₁, hstep, hwf, hr⟩ := step_refines_fifo hb h.1
    obtain ⟨b₂, hrun, hwf', hr'⟩ := run_refines_fifo ops hwf (h.2 b₁ hstep)
    refine ⟨b₂, ?_, hwf', ?_⟩
    · rw [run, List.foldlM_cons, hstep]
      exact hrun
    · rw [hr', hr]
      rfl

/-- The abstract queue holds a suffix of what went in: bytes leave only at the front. -/
theorem fifo_suffix : ∀ (ops : List Op) (q : Bytes),
    ∃ gone, gone ++ fifo q ops = q ++ ops.flatMap Op.input
  | [], q => ⟨[], by simp [fifo]⟩
  | op :: ops, q => by
    obtain ⟨gone, h⟩ := fifo_suffix ops (op.fifo q)
    have hop : ∃ front, front ++ op.fifo q = q ++ op.input := by
      cases op <;> first
        | exact ⟨[], rfl⟩
        | exact ⟨q, rfl⟩
        | exact ⟨_, (List.take_append_drop _ q).trans (List.append_nil q).symm⟩
    obtain ⟨front, hfront⟩ := hop
    refine ⟨front ++ gone, ?_⟩
    rw [List.flatMap_cons, ← List.append_assoc, ← hfront, List.append_assoc, List.append_assoc]
    exact congrArg (front ++ ·) h

/-- **`Buffer` refines an unbounded FIFO byte queue**, from any initial size and over any run. -/
theorem buffer_refines_fifo (initialSize : Nat) (ops : List Op)
    (h : Admissible (new initialSize) ops) :
    ∃ b, run (new initialSize) ops = some b ∧ b.Wf ∧ b.readable = fifo [] ops ∧
      (∃ gone, gone ++ b.readable = ops.flatMap Op.input) ∧
      (∀ len, (b.makeSpace len).Wf ∧ (b.makeSpace len).readable = b.readable) ∧
      (∀ len, len ≤ (b.ensureWritableBytes len).writableBytes) ∧
      (∀ len, len ≤ b.readableBytes → (b.retrieveAsString len).1 = b.readable.take len) := by
  obtain ⟨b, hrun, hwf, hr⟩ := run_refines_fifo ops (new_wf initialSize) h
  rw [readable_new] at hr
  refine ⟨b, hrun, hwf, hr, ?_, fun len => ⟨makeSpace_wf hwf len, readable_makeSpace hwf len⟩,
    le_writableBytes_ensureWritableBytes hwf, fun len => retrieveAsString_fst hwf⟩
  rw [hr]
  exact fifo_suffix ops []

/-- Growth, a spill of `readFd`, a partial read and a compaction on an initially empty vector. -/
theorem buffer_refines_fifo_example :
    ∃ b, run (new 0) [.append [1, 2], .readFd (.bytes [3, 4]), .retrieveUntil 3, .append [5, 6]] =
      some b ∧ b.readable = [4, 5, 6] := by
  obtain ⟨b, hrun, -, hr, -⟩ := buffer_refines_fifo 0
    [.append [1, 2], .readFd (.bytes [3, 4]), .retrieveUntil 3, .append [5, 6]]
    ⟨trivial, fun _ h₁ => by
      cases h₁
      refine ⟨by decide, fun _ h₂ => ?_⟩
      cases h₂
      refine ⟨by decide, fun _ h₃ => ?_⟩
      cases h₃
      exact ⟨trivial, fun _ _ => trivial⟩⟩
  exact ⟨b, hrun, hr⟩

end Buffer

/-! ## Buffers with their invariant -/

/-- A buffer whose indices are in order. -/
structure ByteQueue extends Buffer where
  wf : toBuffer.Wf

namespace ByteQueue

/-- `Buffer(initalSize)`. -/
def new (initialSize : Nat) : ByteQueue := ⟨Buffer.new initialSize, Buffer.new_wf initialSize⟩

/-- `append(const char*, size_t)`. -/
def append (q : ByteQueue) (data : Bytes) : ByteQueue :=
  ⟨q.toBuffer.append data, Buffer.append_wf q.wf data⟩

/-- `append(std::string)`. -/
def appendString (q : ByteQueue) (data : Bytes) : Except Fault ByteQueue :=
  match (q.toBuffer.appendString data).pmap mk fun _ h => Buffer.appendString_wf q.wf h with
  | some q => .ok q
  | none => .error .negativeCopy

/-- `retrieve(len)`. -/
def retrieve (q : ByteQueue) (len : Nat) : ByteQueue :=
  ⟨q.toBuffer.retrieve len, Buffer.retrieve_wf q.wf len⟩

/-- `retrieveUntil(end)`. -/
def retrieveUntil (q : ByteQueue) (endp : Nat) : ByteQueue :=
  ⟨q.toBuffer.retrieveUntil endp, Buffer.retrieve_wf q.wf _⟩

/-- The bytes `readFd` was given by `readv`, stored. -/
def readFd (q : ByteQueue) (data : Bytes) : ByteQueue :=
  ⟨(q.toBuffer.readFd (.bytes data)).1, (Buffer.readFd_bytes q.wf data).1⟩

@[simp] theorem readable_new (n : Nat) : (new n).readable = [] := Buffer.readable_new n

@[simp] theorem readable_append (q : ByteQueue) (data : Bytes) :
    (q.append data).readable = q.readable ++ data := Buffer.readable_append q.wf data

theorem readable_append_new (n : Nat) (data : Bytes) : ((new n).append data).readable = data := by
  rw [readable_append, readable_new, List.nil_append]

theorem appendString_of_lt (q : ByteQueue) {data : Bytes} (h : data.length < 2 ^ 31) :
    q.appendString data = .ok (q.append data) := by
  have hb : (q.toBuffer.appendString data).pmap mk (fun _ h => Buffer.appendString_wf q.wf h) =
      some (q.append data) :=
    Option.pmap_eq_some_iff.mpr
      ⟨_, Buffer.append_wf q.wf data, Buffer.appendString_of_lt _ h, rfl⟩
  rw [appendString, hb]

@[simp] theorem readable_retrieve (q : ByteQueue) (len : Nat) :
    (q.retrieve len).readable = q.readable.drop len := Buffer.readable_retrieve q.wf len

@[simp] theorem readable_readFd (q : ByteQueue) (data : Bytes) :
    (q.readFd data).readable = q.readable ++ data := (Buffer.readFd_bytes q.wf data).2

theorem length_readable (q : ByteQueue) : q.readable.length = q.readableBytes :=
  Buffer.length_readable q.wf

/-- `retrieveUntil(peek() + n)` is `retrieve(n)`. -/
theorem retrieveUntil_peek_add (q : ByteQueue) (n : Nat) :
    q.retrieveUntil (q.peek + n) = q.retrieve n := by
  unfold retrieveUntil retrieve
  simp only [Buffer.retrieveUntil, Nat.add_sub_cancel_left]

/-- The queue once `n` bytes have been retrieved, in however many calls: none for `0`. -/
def consume (q : ByteQueue) (n : Nat) : ByteQueue := if n = 0 then q else q.retrieve n

@[simp] theorem consume_zero (q : ByteQueue) : q.consume 0 = q := if_pos rfl

theorem consume_of_pos (q : ByteQueue) {n : Nat} (h : 0 < n) : q.consume n = q.retrieve n :=
  if_neg (by omega)

@[simp] theorem readable_consume (q : ByteQueue) (n : Nat) :
    (q.consume n).readable = q.readable.drop n := by
  by_cases h : n = 0
  · rw [h, consume_zero, List.drop_zero]
  · rw [consume_of_pos q (by omega), readable_retrieve]

/-- No retrieval touches the vector. -/
@[simp] theorem buffer_consume (q : ByteQueue) (n : Nat) : (q.consume n).buffer = q.buffer := by
  unfold consume retrieve Buffer.retrieve
  by_cases h : n = 0
  · rw [if_pos h]
  · rw [if_neg h]
    simp only
    split <;> rfl

theorem eq_of_toBuffer {p q : ByteQueue} (h : p.toBuffer = q.toBuffer) : p = q := by
  cases p
  cases q
  cases h
  rfl

/-- Retrieving in two calls is retrieving in one. -/
theorem consume_retrieve (q : ByteQueue) {n k : Nat} (hn : 0 < n) (h : n + k ≤ q.readableBytes) :
    (q.retrieve n).consume k = q.consume (n + k) := by
  rw [q.consume_of_pos (by omega)]
  by_cases hk : k = 0
  · rw [hk, consume_zero, Nat.add_zero]
  · rw [consume_of_pos _ (by omega)]
    exact eq_of_toBuffer (Buffer.retrieve_retrieve (by omega) h)

end ByteQueue

end SimpleHttpServer
