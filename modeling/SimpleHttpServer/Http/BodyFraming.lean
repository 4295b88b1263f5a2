import SimpleHttpServer.Http.Segmentation

/-!
# The body of a POST, delivered in chunks

The line states wait for a CRLF; `kExpectBody` waits for nothing. As soon as the header block is
complete it reads `Content-Length` bytes from `peek()` on, whether or not they have arrived.

* `Framed` is what framing a body by its `Content-Length` promises at every chunk boundary;
* **`framed_iff`**: the parser keeps it if and only if no chunk boundary falls between the end of
  the header block and the end of the body;
* `not_framed_example`: a body that arrives in the chunk after its header block.
-/

namespace SimpleHttpServer

open Lib Lib.Store Lib.Search
open RequestMsg (postExample)

namespace HttpContext

/-- How a feed should have ended once `delivered` has arrived: complete with the body of `r`, and
the bytes behind it left, or waiting for the rest of the body with all of it that is there. -/
def FramedAt (r : RequestMsg) (delivered : Bytes) :
    Outcome (ParseVars × List (Bytes × Timestamp)) → Prop
  | .returns (v, unfed) =>
    v.ok = true ∧ v.overread = false ∧
      if delivered.length < r.render.length then
        v.context.state ≠ .kGotAll ∧
          (r.head.length ≤ delivered.length →
            v.context.state = .kExpectBody ∧ v.buf.readable = delivered.drop r.head.length)
      else
        v.context.state = .kGotAll ∧ v.context.request.body = r.body ∧
          v.buf.readable ++ bytesOf unfed = delivered.drop r.render.length
  | _ => False

instance (r : RequestMsg) (delivered : Bytes) (o : Outcome (ParseVars × List (Bytes × Timestamp))) :
    Decidable (FramedAt r delivered o) :=
  match o with
  | .returns _ => inferInstanceAs (Decidable (_ ∧ _ ∧ ite ..))
  | .faults _ | .diverges => inferInstanceAs (Decidable False)

/-- The body is framed at every chunk boundary. -/
def Framed (r : RequestMsg) (q : ByteQueue) (chunks : List (Bytes × Timestamp)) : Prop :=
  ∀ k, FramedAt r (bytesOf (chunks.take k)) (feed {} q (chunks.take k))

/-- The chunk that brings the end of the header block brings the end of the body. -/
def HeadBringsBody (r : RequestMsg) (chunks : List (Bytes × Timestamp)) : Prop :=
  ∀ k, r.head.length ≤ (bytesOf (chunks.take k)).length →
    r.render.length ≤ (bytesOf (chunks.take k)).length

/-- How a feed ends whose line states have ended at a body. -/
def bodyOutcome (t : Timestamp) (c : HttpContext) (buf : ByteQueue)
    (unfed : List (Bytes × Timestamp)) : Outcome (ParseVars × List (Bytes × Timestamp)) :=
  match parseIter t { context := c, buf } with
  | .ok v => .returns (v, unfed)
  | .error f => .faults f

/-- The chunk that completes the head of a POST ends the feed at its body. -/
theorem feed_cons_of_head {r : RequestMsg} (hp : r.method = .kPost) {c : HttpContext}
    (hc : c.state ≠ .kGotAll) {q : ByteQueue} {chunk : Bytes} (t : Timestamp)
    (chunks : List (Bytes × Timestamp)) {w : Bytes}
    (hscan : (lineScanner ⟨0⟩).scan c.untimed (q.append chunk).readable =
      (lineScanner ⟨0⟩).scan {} (r.head ++ w)) :
    ∃ c' buf, c'.untimed = ⟨.kExpectBody, r.parsed ⟨0⟩⟩ ∧ buf.readable = w ∧
      feed c q ((chunk, t) :: chunks) = bodyOutcome t c' buf chunks := by
  rw [r.scan_head ⟨0⟩ w, if_pos hp] at hscan
  obtain ⟨c', buf, hc', hbuf, hrun⟩ := parseRequest_untimed hc (q.append chunk) t hscan
  have hs : c'.state = .kExpectBody := congrArg HttpContext.state hc'
  refine ⟨c', buf, hc', hbuf, ?_⟩
  rw [feed, hrun, finish, bodyOutcome]
  simp only [hs, if_true]
  cases hi : parseIter t { context := c', buf } with
  | error f => rfl
  | ok v =>
    have hgot := (parseIter_body_ok hs hi).1
    simp [Outcome.ofExcept, hgot]

/-- Feeding a stream that starts with a rendered POST, of which `d` has been scanned: either the
head is not complete and the parser waits, or the chunk that completes it ends at the body. -/
theorem feed_post {r : RequestMsg} (hp : r.method = .kPost) :
    ∀ (chunks : List (Bytes × Timestamp)) {c : HttpContext} {q : ByteQueue} {d tail : Bytes},
      (lineScanner ⟨0⟩).scan {} d = ⟨none, c.untimed, q.readable⟩ →
      d.length < r.head.length → d ++ bytesOf chunks <+: r.head ++ tail →
      ((d ++ bytesOf chunks).length < r.head.length ∧
        ∃ c' buf, feed c q chunks = .returns ({ hasMore := false, context := c', buf }, []) ∧
          c'.inLines = true) ∨
      ∃ j c' buf t, r.head.length ≤ (d ++ bytesOf (chunks.take j)).length ∧
        c'.untimed = ⟨.kExpectBody, r.parsed ⟨0⟩⟩ ∧
        buf.readable = (d ++ bytesOf (chunks.take j)).drop r.head.length ∧
        feed c q chunks = bodyOutcome t c' buf (chunks.drop j)
  | [], c, q, d, tail, hscan, hd, _ => by
    refine Or.inl ⟨by simpa [bytesOf] using hd, c, q, rfl, ?_⟩
    have hl := scan_waits_inLines ⟨0⟩ {} d (by rw [hscan])
    rwa [hscan] at hl
  | (chunk, t) :: chunks, c, q, d, tail, hscan, hd, hpre => by
    rw [bytesOf_cons, ← List.append_assoc] at hpre
    have hl := scan_waits_inLines ⟨0⟩ {} d (by rw [hscan])
    rw [hscan] at hl
    have hg : c.state ≠ .kGotAll := (inLines_ne (c := c) hl).2
    have hdc : (lineScanner ⟨0⟩).scan c.untimed (q.append chunk).readable =
        (lineScanner ⟨0⟩).scan {} (d ++ chunk) := by
      rw [Scanner.scan_of_waits (by rw [hscan]), hscan, ByteQueue.readable_append]
    have hpre' : d ++ chunk <+: r.head ++ tail := (List.prefix_append _ _).trans hpre
    by_cases hlen : (d ++ chunk).length < r.head.length
    · -- the head is not complete: the scan waits, and so does the call
      have hwait := scan_waits_of_short r hpre' hlen
      obtain ⟨c', q', hstate, hbuf, hfeed⟩ := feed_cons_of_waits hg t chunks hdc hwait
      have hscan' : (lineScanner ⟨0⟩).scan {} (d ++ chunk) =
          ⟨none, c'.untimed, q'.readable⟩ := by
        rw [hstate, hbuf, ← hwait]
      rw [bytesOf_cons, ← List.append_assoc, hfeed]
      rcases feed_post hp chunks hscan' hlen hpre with h | ⟨j, c', buf, t', hj⟩
      · exact Or.inl h
      · refine Or.inr ⟨j + 1, c', buf, t', ?_⟩
        rw [List.take_succ_cons, List.drop_succ_cons, bytesOf_cons, ← List.append_assoc]
        exact hj
    · -- the head is complete
      obtain ⟨w, hw⟩ := List.prefix_of_prefix_length_le (List.prefix_append r.head tail) hpre'
        (Nat.le_of_not_lt hlen)
      rw [← hw] at hdc
      obtain ⟨c', buf, hc', hbuf, hfeed⟩ := feed_cons_of_head hp hg t chunks hdc
      refine Or.inr ⟨1, c', buf, t, ?_, hc', ?_, hfeed⟩
      · simpa [bytesOf] using Nat.le_of_not_lt hlen
      · rw [hbuf]
        simp [bytesOf, ← hw]

/-- The feed of a prefix of the stream, by where the prefix ends. -/
theorem feed_post_take {r : RequestMsg} (hp : r.method = .kPost) {q : ByteQueue}
    (hq : q.readable = []) {chunks : List (Bytes × Timestamp)} {following : Bytes}
    (hchunks : bytesOf chunks = r.render ++ following) (k : Nat) :
    ((bytesOf (chunks.take k)).length < r.head.length ∧
      ∃ c' buf,
        feed {} q (chunks.take k) = .returns ({ hasMore := false, context := c', buf }, []) ∧
        c'.inLines = true) ∨
    ∃ j c' buf t, r.head.length ≤ (bytesOf ((chunks.take k).take j)).length ∧
      c'.untimed = ⟨.kExpectBody, r.parsed ⟨0⟩⟩ ∧
      buf.readable = (bytesOf ((chunks.take k).take j)).drop r.head.length ∧
      feed {} q (chunks.take k) = bodyOutcome t c' buf ((chunks.take k).drop j) := by
  have hscan : (lineScanner ⟨0⟩).scan {} [] = ⟨none, ({} : HttpContext).untimed, q.readable⟩ := by
    rw [hq]
    exact scan_nil ⟨0⟩
  have hhead : ([] : Bytes).length < r.head.length := by
    simp only [RequestMsg.head, RequestMsg.requestLine, List.length_append, List.length_cons,
      List.length_nil]
    omega
  have hpre : [] ++ bytesOf (chunks.take k) <+: r.head ++ (r.body ++ following) := by
    rw [List.nil_append, ← List.append_assoc]
    exact hchunks ▸ prefix_bytesOf_take chunks k
  simpa only [List.nil_append] using feed_post hp (chunks.take k) hscan hhead hpre

/-- The body framed, if the chunk that completes the head brought it. -/
theorem framedAt_of_le {r : RequestMsg} (hp : r.method = .kPost) {d : Bytes} {c : HttpContext}
    {buf : ByteQueue} {following : Bytes} (t : Timestamp) (unfed : List (Bytes × Timestamp))
    (hc : c.untimed = ⟨.kExpectBody, r.parsed ⟨0⟩⟩) (hbuf : buf.readable = d.drop r.head.length)
    (hpre : d <+: r.render ++ following) (hle : r.render.length ≤ d.length) :
    FramedAt r (d ++ bytesOf unfed) (bodyOutcome t c buf unfed) := by
  obtain ⟨w, rfl⟩ :=
    List.prefix_of_prefix_length_le (List.prefix_append r.render following) hpre hle
  have hs : c.state = .kExpectBody := congrArg HttpContext.state hc
  rw [RequestMsg.render, List.append_assoc, List.drop_left] at hbuf
  have hlen : r.body.length ≤ buf.readableBytes := by
    rw [← buf.length_readable, hbuf, List.length_append]
    exact Nat.le_add_right _ _
  rw [bodyOutcome, parseIter_body t hs (r.stoi_untimed hp hc) hlen]
  refine ⟨rfl, rfl, ?_⟩
  rw [if_neg (by simp only [List.length_append]; omega)]
  refine ⟨rfl, ?_, ?_⟩
  · simp only [HttpRequest.setBody, hbuf, List.take_left]
  · rw [ByteQueue.readable_retrieve, hbuf, List.drop_left, List.append_assoc, List.drop_left]

/-- Nothing frames a body that the chunk completing the head did not bring. -/
theorem not_framedAt_of_lt {r : RequestMsg} (hp : r.method = .kPost) {d delivered : Bytes}
    {c : HttpContext} {buf : ByteQueue} (t : Timestamp) (unfed : List (Bytes × Timestamp))
    (hc : c.untimed = ⟨.kExpectBody, r.parsed ⟨0⟩⟩) (hbuf : buf.readable = d.drop r.head.length)
    (hge : r.head.length ≤ d.length) (hlt : d.length < r.render.length) :
    ¬ FramedAt r delivered (bodyOutcome t c buf unfed) := by
  have hs : c.state = .kExpectBody := congrArg HttpContext.state hc
  have hshort : buf.readableBytes < r.body.length := by
    rw [RequestMsg.render, List.length_append] at hlt
    rw [← buf.length_readable, hbuf, List.length_drop]
    omega
  unfold bodyOutcome
  cases hi : parseIter t { context := c, buf } with
  | error f => exact id
  | ok v =>
    rintro ⟨-, hover, -⟩
    have h := (parseIter_body_short t hs (r.stoi_untimed hp hc) hshort hi).1
    rw [hover] at h
    cases h

/-- **The body of a POST is framed if and only if no chunk boundary falls inside it**, from the end
of the header block on. -/
theorem framed_iff {r : RequestMsg} (hp : r.method = .kPost) {q : ByteQueue}
    (hq : q.readable = []) {chunks : List (Bytes × Timestamp)} {following : Bytes}
    (hchunks : bytesOf chunks = r.render ++ following) :
    Framed r q chunks ↔ HeadBringsBody r chunks := by
  constructor
  · intro h k hk
    rcases feed_post_take hp hq hchunks k with ⟨hlt, -⟩ | ⟨j, c, buf, t, hj, hc, hbuf, hrun⟩
    · exact absurd hk (Nat.not_le_of_lt hlt)
    · by_contra hlt
      have hjk : (bytesOf ((chunks.take k).take j)).length ≤ (bytesOf (chunks.take k)).length :=
        (prefix_bytesOf_take (chunks.take k) j).length_le
      have hk' := h k
      rw [hrun] at hk'
      exact not_framedAt_of_lt hp t _ hc hbuf hj (by omega) hk'
  · intro h k
    rcases feed_post_take hp hq hchunks k with
      ⟨hlt, c, buf, hrun, hl⟩ | ⟨j, c, buf, t, hj, hc, hbuf, hrun⟩
    · rw [hrun]
      have hle : r.head.length ≤ r.render.length := by simp [RequestMsg.render]
      refine ⟨rfl, rfl, ?_⟩
      rw [if_pos (Nat.lt_of_lt_of_le hlt hle)]
      exact ⟨(inLines_ne hl).2, fun hge => absurd hge (Nat.not_le_of_lt hlt)⟩
    · have hall := h (min j k)
      rw [← List.take_take] at hall
      have hpre : bytesOf ((chunks.take k).take j) <+: r.render ++ following :=
        hchunks ▸ (prefix_bytesOf_take _ j).trans (prefix_bytesOf_take chunks k)
      have hframed := framedAt_of_le hp t ((chunks.take k).drop j) hc hbuf hpre (hall hj)
      rwa [← bytesOf_append, List.take_append_drop, ← hrun] at hframed

theorem not_framed_of_take {r : RequestMsg} {q : ByteQueue} {chunks : List (Bytes × Timestamp)}
    (k : Nat) (h : ¬ FramedAt r (bytesOf (chunks.take k)) (feed {} q (chunks.take k))) :
    ¬ Framed r q chunks := fun hf => h (hf k)

/-- In one chunk with its header block a body is framed. -/
theorem framed_iff_example :
    Framed postExample (ByteQueue.new Buffer.kInitialSize) [(postExample.render, ⟨1⟩)] := by
  have hchunks : bytesOf [(postExample.render, ⟨1⟩)] = postExample.render ++ [] := by
    simp [bytesOf]
  refine (framed_iff (by decide) (by simp) hchunks).mpr ?_
  intro k hk
  cases k with
  | zero => exact absurd hk (by decide)
  | succ k => simp [bytesOf]

/-- In a chunk of its own it is not: after the header block alone the parser has got all. -/
theorem not_framed_example :
    ∃ (r : RequestMsg) (chunks : List (Bytes × Timestamp)), r.method = .kPost ∧
      bytesOf chunks = r.render ∧ ¬ Framed r (ByteQueue.new Buffer.kInitialSize) chunks := by
  refine ⟨postExample, [(postExample.head, ⟨1⟩), (postExample.body, ⟨2⟩)], rfl, ?_,
    not_framed_of_take 1 (by decide +kernel)⟩
  simp [bytesOf, RequestMsg.render]

end HttpContext

end SimpleHttpServer
