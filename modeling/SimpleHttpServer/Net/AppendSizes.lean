import SimpleHttpServer.Net.ByteQueue

/-!
# The two `append`s, in `size_t`

`append` and what it calls (`net/Buffer.h`) again, with the sizes wrapped as the machine wraps them
and a vector that cannot grow beyond `max_size()`. `append(std::string)` takes the length through
`int`: from `2 ^ 31` bytes on it appends nothing, or a part of the string, or goes wrong.

* `Sized.append_eq`: below `2 ^ 31` bytes nothing wraps, and this is the `append` of `Buffer`;
* `Sized.appendString_of_nonneg`: `append(std::string)` appends as many bytes as its `int` says;
* **`Sized.agree_iff`**: both overloads append all of the string if and only if it is shorter than
  `2 ^ 31` bytes, and there is room for it;
* `Sized.disagree_example`: a string of `2 ^ 32` bytes.
-/

namespace SimpleHttpServer

open Lib.Store

namespace Buffer.Sized

/-- `std::vector<char>::max_size()`. -/
def maxSize : Nat := 2 ^ 63 - 1

/-- `size_t` arithmetic. -/
def wrap (n : Nat) : Nat := n % 2 ^ 64

/-- `buffer_.resize(n)`. -/
def resizeTo (b : Buffer) (n : Nat) : Except Fault Buffer :=
  if n ≤ maxSize then .ok { b with buffer := resize b.buffer n 0 } else .error .lengthError

/-- `makeSpace(len)`. -/
def makeSpace (b : Buffer) (len : Nat) : Except Fault Buffer :=
  if wrap (b.writableBytes + b.prependableBytes) < wrap (len + kCheapPrepend) then
    resizeTo b (wrap (b.writerIndex + len))
  else
    .ok { buffer := overwrite b.buffer kCheapPrepend (slice b.buffer b.readerIndex b.writerIndex)
          readerIndex := kCheapPrepend
          writerIndex := kCheapPrepend + b.readableBytes }

/-- `ensureWritableBytes(len)`. -/
def ensureWritableBytes (b : Buffer) (len : Nat) : Except Fault Buffer :=
  if b.writableBytes < len then makeSpace b len else .ok b

/-- `std::copy(data, data + len, beginWrite()); writerIndex_ += len`. -/
def copyIn (b : Buffer) (data : Bytes) : Except Fault Buffer :=
  if b.writerIndex + data.length ≤ b.buffer.length then .ok (b.copyIn data) else .error .overrun

/-- `append(const char*, size_t)`. -/
def append (b : Buffer) (data : Bytes) : Except Fault Buffer := do
  let b ← ensureWritableBytes b data.length
  copyIn b data

/-- `append(std::string)`. -/
def appendString (b : Buffer) (data : Bytes) : Except Fault Buffer := do
  let len := toInt data.length
  let b ← ensureWritableBytes b (toSize len)
  if len < 0 then .error .negativeCopy else copyIn b (data.take len.toNat)

/-- The vector need not grow for `len` more bytes, or it can. -/
def Room (b : Buffer) (len : Nat) : Prop :=
  len ≤ b.writableBytes ∨ len + kCheapPrepend ≤ b.writableBytes + b.prependableBytes ∨
    b.writerIndex + len ≤ maxSize

/-- Both overloads leave the readable bytes followed by all of `data`, and valid indices. -/
def Agree (b : Buffer) (data : Bytes) : Prop :=
  ∃ b₁ b₂, append b data = .ok b₁ ∧ appendString b data = .ok b₂ ∧
    b₁.Wf ∧ b₁.readable = b.readable ++ data ∧ b₂.Wf ∧ b₂.readable = b.readable ++ data

variable {b b' : Buffer} {data : Bytes} {len : Nat}

/-! ## Without wrapping -/

theorem wrap_of_lt {n : Nat} (h : n < 2 ^ 64) : wrap n = n := Nat.mod_eq_of_lt h

/-- Nothing wraps below `2 ^ 31` bytes; the vector grows if there is room. -/
theorem ensureWritableBytes_eq (hb : b.Wf) (hmax : b.buffer.length ≤ maxSize)
    (hlen : len < 2 ^ 31) :
    ensureWritableBytes b len = .ok (b.ensureWritableBytes len) ∧ Room b len ∨
      ensureWritableBytes b len = .error .lengthError ∧ ¬ Room b len := by
  obtain ⟨h₁, h₂, h₃⟩ := hb
  unfold maxSize at hmax
  unfold ensureWritableBytes Buffer.ensureWritableBytes
  by_cases hfull : b.writableBytes < len
  · rw [if_pos hfull, if_pos hfull]
    unfold makeSpace Buffer.makeSpace
    have hfree : wrap (b.writableBytes + b.prependableBytes) =
        b.writableBytes + b.prependableBytes := by
      refine wrap_of_lt ?_
      unfold writableBytes prependableBytes
      omega
    rw [hfree, wrap_of_lt (by unfold kCheapPrepend; omega),
      wrap_of_lt (n := b.writerIndex + len) (by omega)]
    by_cases hgrow : b.writableBytes + b.prependableBytes < len + kCheapPrepend
    · rw [if_pos hgrow, if_pos hgrow, resizeTo]
      by_cases hroom : b.writerIndex + len ≤ maxSize
      · rw [if_pos hroom]
        exact .inl ⟨rfl, .inr (.inr hroom)⟩
      · rw [if_neg hroom]
        refine .inr ⟨rfl, ?_⟩
        unfold Room
        omega
    · rw [if_neg hgrow, if_neg hgrow]
      exact .inl ⟨rfl, .inr (.inl (by omega))⟩
  · rw [if_neg hfull, if_neg hfull]
    exact .inl ⟨rfl, .inl (by omega)⟩

theorem copyIn_of_room (hb : b.Wf) (h : data.length ≤ b.writableBytes) :
    copyIn b data = .ok (b.copyIn data) := by
  have hw := hb.writer_le
  unfold writableBytes at h
  exact if_pos (by omega)

/-- **Below `2 ^ 31` bytes this is the `append` of `Buffer`**, if there is room. -/
theorem append_eq (hb : b.Wf) (hmax : b.buffer.length ≤ maxSize) (hlen : data.length < 2 ^ 31) :
    append b data = .ok (b.append data) ∧ Room b data.length ∨
      append b data = .error .lengthError ∧ ¬ Room b data.length := by
  unfold append
  rcases ensureWritableBytes_eq hb hmax hlen with ⟨heq, hroom⟩ | ⟨heq, hroom⟩
  · refine .inl ⟨?_, hroom⟩
    rw [heq]
    exact copyIn_of_room (ensureWritableBytes_wf hb _) (le_writableBytes_ensureWritableBytes hb _)
  · refine .inr ⟨?_, hroom⟩
    rw [heq]
    rfl

theorem append_eq_ok_iff (hb : b.Wf) (hmax : b.buffer.length ≤ maxSize)
    (hlen : data.length < 2 ^ 31) :
    append b data = .ok b' ↔ b' = b.append data ∧ Room b data.length := by
  rcases append_eq hb hmax hlen with ⟨heq, hroom⟩ | ⟨heq, hroom⟩
  · rw [heq, Except.ok.injEq, eq_comm]
    exact (and_iff_left hroom).symm
  · rw [heq]
    exact iff_of_false nofun fun h => hroom h.2

/-! ## Through `int` -/

theorem appendString_eq (b : Buffer) (data : Bytes) : appendString b data =
    ensureWritableBytes b (toSize (toInt data.length)) >>= fun b =>
      if toInt data.length < 0 then .error .negativeCopy
      else copyIn b (data.take (toInt data.length).toNat) := rfl

/-- A negative length ends in the copy at the latest. -/
theorem appendString_of_neg (h : toInt data.length < 0) : ∃ f, appendString b data = .error f := by
  rw [appendString_eq]
  cases ensureWritableBytes b (toSize (toInt data.length)) with
  | error f => exact ⟨f, rfl⟩
  | ok b' => exact ⟨.negativeCopy, if_pos h⟩

/-- **`append(std::string)` appends as many bytes as the `int` says.** -/
theorem appendString_of_nonneg (h : 0 ≤ toInt data.length) :
    appendString b data = append b (data.take (toInt data.length).toNat) := by
  obtain ⟨hle, hlt⟩ := toInt_le data.length
  have hsize : toSize (toInt data.length) = (data.take (toInt data.length).toNat).length := by
    rw [List.length_take, Nat.min_eq_left hle]
    conv_lhs => rw [← Int.toNat_of_nonneg h]
    exact toSize_of_nonneg (by omega)
  rw [appendString_eq, hsize]
  unfold append
  congr 1
  funext b'
  exact if_neg (by omega)

/-- Below `2 ^ 31` bytes it is the `append(std::string)` of `Buffer`. -/
theorem appendString_of_lt (h : data.length < 2 ^ 31) : appendString b data = append b data := by
  have hint : toInt data.length = data.length := toInt_of_lt h
  rw [appendString_of_nonneg (by omega), hint, Int.toNat_natCast, List.take_length]

/-- **The two overloads append all of a string if and only if** it is shorter than `2 ^ 31` bytes,
and there is room for it. -/
theorem agree_iff (hb : b.Wf) (hmax : b.buffer.length ≤ maxSize) :
    Agree b data ↔ data.length < 2 ^ 31 ∧ Room b data.length := by
  constructor
  · rintro ⟨b₁, b₂, h₁, h₂, -, -, -, hreadable⟩
    have hint : 0 ≤ toInt data.length := by
      by_contra hneg
      obtain ⟨f, hf⟩ := appendString_of_neg (b := b) (Int.not_le.mp hneg)
      exact nomatch hf.symm.trans h₂
    obtain ⟨hle, hlt⟩ := toInt_le data.length
    have hpart : (data.take (toInt data.length).toNat).length = (toInt data.length).toNat := by
      rw [List.length_take, Nat.min_eq_left hle]
    rw [appendString_of_nonneg hint,
      append_eq_ok_iff hb hmax (by rw [hpart]; exact hlt)] at h₂
    -- so all of the string was the part that was copied
    rw [h₂.1, readable_append hb, List.append_cancel_left_eq] at hreadable
    have hlen : data.length < 2 ^ 31 := by
      rw [← hreadable, hpart]
      exact hlt
    exact ⟨hlen, ((append_eq_ok_iff hb hmax hlen).mp h₁).2⟩
  · rintro ⟨hlen, hroom⟩
    have happend := (append_eq_ok_iff hb hmax hlen).mpr ⟨rfl, hroom⟩
    have hwf := append_wf hb data
    have hreadable := readable_append hb data
    refine ⟨_, _, happend, ?_, hwf, hreadable, hwf, hreadable⟩
    rw [appendString_of_lt hlen, happend]

theorem length_new_le (n : Nat) (h : n < 2 ^ 32) : (new n).buffer.length ≤ maxSize := by
  simp only [new, List.length_replicate, kCheapPrepend, maxSize]
  omega

/-- A short string, into a new buffer. -/
theorem agree_iff_example : Agree (new kInitialSize) (ascii "HTTP/1.1 ") := by
  refine (agree_iff (new_wf _) (length_new_le _ (by decide))).mpr ⟨by decide, .inl ?_⟩
  simp only [writableBytes, new, List.length_replicate]
  decide

/-- **The overloads do not agree on every string**: of `2 ^ 32` bytes `append(std::string)` appends
nothing. -/
theorem disagree_example :
    ¬ ∀ (b : Buffer) (data : Bytes), b.Wf → b.buffer.length ≤ maxSize →
      b.writerIndex + data.length ≤ maxSize → Agree b data := by
  intro h
  obtain ⟨data, hlen⟩ : ∃ data : Bytes, data.length = 2 ^ 32 :=
    ⟨List.replicate (2 ^ 32) 0, List.length_replicate⟩
  have hint : toInt data.length = 0 := by
    rw [hlen]
    decide
  have hnew := length_new_le kInitialSize (by decide)
  obtain ⟨b₁, b₂, -, h₂, -, -, -, hreadable⟩ := h (new kInitialSize) data (new_wf _) hnew (by
    rw [hlen]
    decide)
  rw [appendString_of_nonneg hint.ge, hint] at h₂
  have hnothing := ((append_eq_ok_iff (new_wf _) hnew (by simp)).mp h₂).1
  rw [hnothing, readable_append (new_wf _), List.append_cancel_left_eq] at hreadable
  -- nothing is all of `data`
  rw [← hreadable, Int.toNat_zero, List.take_zero] at hlen
  exact absurd hlen (by decide)

end Buffer.Sized

end SimpleHttpServer
