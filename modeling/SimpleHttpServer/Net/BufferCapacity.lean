import SimpleHttpServer.Net.ByteQueue

/-!
# The memory of a `Buffer`

The vector of a buffer is never made smaller, and `makeSpace` makes it larger only if the room
behind the readable bytes and the gap in front of them together do not hold what is to come. So what
`kCheapPrepend` and that gap waste is less than what comes.

* `peak q ops` is the most that a run of calls ever wants to have in the queue;
* `Grows.step`: one call, with what it wants;
* **`capacity_bounded`**: over any run the vector stays between its first size and twice the peak.
-/

namespace SimpleHttpServer

open Lib.Store

namespace Buffer

/-- The bytes that a call puts in, or asks for room for. -/
def Op.room : Op → Nat
  | .ensureWritableBytes len => len
  | op => op.input.length

/-- The most that the queue is to have room for in a run. -/
def peak (q : Bytes) : List Op → Nat
  | [] => q.length
  | op :: ops => max (q.length + op.room) (peak (op.fifo q) ops)

/-- The vector does not shrink, and grows to at most twice the bytes wanted, but for a constant. -/
structure Grows (b b' : Buffer) (wanted : Nat) : Prop where
  keeps : b.buffer.length ≤ b'.buffer.length
  bounded : b'.buffer.length ≤ max b.buffer.length (2 * wanted + 7)

variable {b b' : Buffer}

theorem Grows.of_eq {wanted : Nat} (h : b'.buffer.length = b.buffer.length) : Grows b b' wanted :=
  ⟨h.ge, h.le.trans (Nat.le_max_left _ _)⟩

/-- The vector grows only if the gap in front of the readable bytes is no larger than what comes. -/
theorem grows_ensureWritableBytes (hb : b.Wf) (len : Nat) :
    Grows b (b.ensureWritableBytes len) (b.readableBytes + len) := by
  obtain ⟨h₁, h₂, h₃⟩ := hb
  unfold ensureWritableBytes
  split
  · rename_i hroom
    unfold makeSpace
    split
    · rename_i hgap
      unfold writableBytes at hroom hgap
      unfold prependableBytes kCheapPrepend at hgap
      constructor
      · show b.buffer.length ≤ (resize b.buffer (b.writerIndex + len) 0).length
        rw [length_resize]
        omega
      · show (resize b.buffer (b.writerIndex + len) 0).length ≤ _
        rw [length_resize]
        unfold readableBytes
        omega
    · refine .of_eq ?_
      show (overwrite b.buffer kCheapPrepend
        (slice b.buffer b.readerIndex b.writerIndex)).length = b.buffer.length
      rw [length_overwrite (by rw [length_slice h₃]; omega)]
  · exact .of_eq rfl

theorem length_copyIn {data : Bytes} (h : data.length ≤ b.writableBytes) (hb : b.Wf) :
    (b.copyIn data).buffer.length = b.buffer.length := by
  have hle := hb.writer_le
  unfold writableBytes at h
  unfold copyIn beginWrite
  exact length_overwrite (by omega)

theorem grows_append (hb : b.Wf) (data : Bytes) :
    Grows b (b.append data) (b.readableBytes + data.length) := by
  have hgrows := grows_ensureWritableBytes hb data.length
  have hlength := length_copyIn (le_writableBytes_ensureWritableBytes hb data.length)
    (ensureWritableBytes_wf hb data.length)
  exact ⟨hlength ▸ hgrows.keeps, hlength ▸ hgrows.bounded⟩

/-- `readFd` appends what is over to a vector that it has filled. -/
theorem grows_readFd (hb : b.Wf) (data : Bytes) :
    Grows b (b.readFd (.bytes data)).1 (b.readableBytes + data.length) := by
  obtain ⟨h₁, h₂, h₃⟩ := hb
  have hstored : (overwrite b.buffer b.writerIndex (data.take b.writableBytes)).length =
      b.buffer.length := by
    refine length_overwrite ?_
    rw [List.length_take]
    unfold writableBytes
    omega
  unfold readFd
  simp only
  split
  · exact .of_eq hstored
  · rename_i hspill
    have hfull : Wf { b with
        buffer := overwrite b.buffer b.writerIndex (data.take b.writableBytes)
        writerIndex := (overwrite b.buffer b.writerIndex (data.take b.writableBytes)).length } :=
      ⟨h₁, by simp only; omega, Nat.le_refl _⟩
    obtain ⟨hkeeps, hbounded⟩ := grows_append hfull (data.drop b.writableBytes)
    refine ⟨hstored.ge.trans hkeeps, hbounded.trans ?_⟩
    rw [List.length_drop]
    unfold writableBytes at hspill
    simp only [readableBytes, writableBytes] at hstored ⊢
    omega

@[simp] theorem length_retrieve (b : Buffer) (len : Nat) :
    (b.retrieve len).buffer.length = b.buffer.length := by
  unfold retrieve
  split <;> rfl

/-- **One call.** -/
theorem Grows.step (hb : b.Wf) {op : Op} (hop : op.Ok b) (hstep : b.step op = some b') :
    Grows b b' (b.readableBytes + op.room) := by
  cases op with
  | append data =>
    obtain rfl := Option.some.inj hstep
    exact grows_append hb data
  | appendString data =>
    have hlt : data.length < 2 ^ 31 := hop
    obtain rfl := Option.some.inj ((appendString_of_lt b hlt).symm.trans hstep)
    exact grows_append hb data
  | retrieve len =>
    obtain rfl := Option.some.inj hstep
    exact .of_eq (length_retrieve b len)
  | retrieveUntil offset =>
    obtain rfl := Option.some.inj hstep
    exact .of_eq (length_retrieve b _)
  | retrieveAll =>
    obtain rfl := Option.some.inj hstep
    exact .of_eq rfl
  | retrieveAsString len =>
    obtain rfl := Option.some.inj hstep
    exact .of_eq (length_retrieve b len)
  | ensureWritableBytes len =>
    obtain rfl := Option.some.inj hstep
    exact grows_ensureWritableBytes hb len
  | readFd r =>
    obtain rfl := Option.some.inj hstep
    cases r with
    | bytes data => exact grows_readFd hb data
    | failed e => exact .of_eq rfl

/-- A run grows the vector no more than its peak asks for. -/
theorem grows_run : ∀ (ops : List Op) {b : Buffer}, b.Wf → Admissible b ops →
    ∃ b', run b ops = some b' ∧ Grows b b' (peak b.readable ops)
  | [], b, _, _ => ⟨b, rfl, .of_eq rfl⟩
  | op :: ops, b, hb, h => by
    obtain ⟨b₁, hstep, hwf, hr⟩ := step_refines_fifo hb h.1
    obtain ⟨b₂, hrun, hgrows⟩ := grows_run ops hwf (h.2 b₁ hstep)
    have hfirst := Grows.step hb h.1 hstep
    rw [← length_readable hb] at hfirst
    rw [hr] at hgrows
    refine ⟨b₂, ?_, hfirst.keeps.trans hgrows.keeps, ?_⟩
    · rw [run, List.foldlM_cons, hstep]
      exact hrun
    · have h₁ := hfirst.bounded
      have h₂ := hgrows.bounded
      unfold peak
      omega

/-- **The memory of a buffer follows what it is to hold**: over any admissible run the vector never
becomes smaller than the constructor has made it, and never larger than that or than twice the most
that the queue was to have room for, but for 7 bytes. -/
theorem capacity_bounded (initialSize : Nat) (ops : List Op)
    (h : Admissible (new initialSize) ops) :
    ∃ b, run (new initialSize) ops = some b ∧ kCheapPrepend + initialSize ≤ b.buffer.length ∧
      b.buffer.length ≤ max (kCheapPrepend + initialSize) (2 * peak [] ops + 7) := by
  obtain ⟨b, hrun, hkeeps, hbounded⟩ := grows_run ops (new_wf initialSize) h
  have hnew : (new initialSize).buffer.length = kCheapPrepend + initialSize :=
    List.length_replicate
  rw [hnew] at hkeeps hbounded
  rw [readable_new] at hbounded
  exact ⟨b, hrun, hkeeps, hbounded⟩

/-- One byte in an empty vector: the bound is met. -/
theorem capacity_bounded_example :
    ∃ b, run (new 0) [.append [1]] = some b ∧ b.buffer.length = 2 * peak [] [.append [1]] + 7 := by
  obtain ⟨b, hrun, -⟩ := capacity_bounded 0 [.append [1]] ⟨trivial, fun _ _ => trivial⟩
  refine ⟨b, hrun, ?_⟩
  obtain rfl := Option.some.inj hrun
  rfl

end Buffer

end SimpleHttpServer
