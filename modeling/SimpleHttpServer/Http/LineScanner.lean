import SimpleHttpServer.Http.HttpContext
import SimpleHttpServer.Lib.Scanner

/-!
# The line states of the parser are a resumable scanner

`lineScanner t` is what `parseRequest` does in `kExpectRequestLine` and `kExpectHeaders`, on the
unread bytes instead of on a `Buffer`: it waits for a CRLF, consumes a line, or halts, with `false`
on a rejected request line, and with `true` at the end of the header block, in state `kGotAll` or,
for a POST, `kExpectBody`. It is a `Lib.Scanner`, so its laws about segmented streams apply.

* **`parseRequest_eq`**: a call of `parseRequest` is a scan of the readable bytes, followed by the
  body state when the scan halts there (`finish`).
* `lineScanner_untimed`: apart from `receiveTime`, a scan does not depend on when it is made.
-/

namespace SimpleHttpServer

open Lib Lib.Store Lib.Search

namespace HttpContext

/-- The parser is reading lines. -/
def inLines (c : HttpContext) : Bool :=
  c.state == .kExpectRequestLine || c.state == .kExpectHeaders

theorem inLines_cases {c : HttpContext} (h : c.inLines = true) :
    c.state = .kExpectRequestLine ∨ c.state = .kExpectHeaders := by
  simpa [inLines] using h

theorem inLines_ne {c : HttpContext} (h : c.inLines = true) :
    c.state ≠ .kExpectBody ∧ c.state ≠ .kGotAll := by
  rcases inLines_cases h with hs | hs <;> simp [hs]

/-- What an iteration in a line state does with the line in front of the first CRLF. -/
def onLine (t : Timestamp) (c : HttpContext) (line : Bytes) :
    Move HttpContext (Except Fault Bool) :=
  if c.state = .kExpectRequestLine then
    match c.processRequestLine line with
    | .error f => .halt (.error f) c 0
    | .ok (true, c') => .advance ⟨.kExpectHeaders, c'.request.setReceiveTime t⟩ (line.length + 2)
    | .ok (false, c') => .halt (.ok false) c' 0
  else
    match breakAt 58 line with
    | (field, _ :: after) =>
      .advance { c with request := c.request.addHeader field after } (line.length + 2)
    | (_, []) =>
      .halt (.ok true)
        { c with state := if c.request.method = .kPost then .kExpectBody else .kGotAll }
        (line.length + 2)

/-- One iteration of the loop in the line states, on the unread bytes. -/
def lineMove (t : Timestamp) (c : HttpContext) (xs : Bytes) :
    Move HttpContext (Except Fault Bool) :=
  if c.inLines then
    match search Buffer.kCRLF xs with
    | none => .wait
    | some n => c.onLine t (xs.take n)
  else
    .halt (.ok true) c 0

theorem search_kCRLF_le {xs : Bytes} {n : Nat} (h : search Buffer.kCRLF xs = some n) :
    n + 2 ≤ xs.length := (search_spec h).choose_spec.2

theorem onLine_advance {t : Timestamp} {c c' : HttpContext} {line : Bytes} {k : Nat}
    (h : c.onLine t line = .advance c' k) : k = line.length + 2 := by
  unfold onLine at h
  split at h <;> split at h <;> cases h <;> rfl

theorem onLine_halt {t : Timestamp} {c c' : HttpContext} {line : Bytes} {r : Except Fault Bool}
    {k : Nat} (h : c.onLine t line = .halt r c' k) : k ≤ line.length + 2 := by
  unfold onLine at h
  split at h <;> split at h <;> cases h <;> omega

/-- A rejected request line stays in the buffer. -/
theorem onLine_rejects {t : Timestamp} {c c' : HttpContext} {line : Bytes} {k : Nat}
    (h : c.onLine t line = .halt (.ok false) c' k) : k = 0 := by
  unfold onLine at h
  split at h <;> split at h <;> cases h
  rfl

/-- A halt with `true` leaves the line states. -/
theorem onLine_accepts {t : Timestamp} {c c' : HttpContext} {line : Bytes} {k : Nat}
    (h : c.onLine t line = .halt (.ok true) c' k) : c'.inLines = false := by
  unfold onLine at h
  split at h
  · split at h <;> cases h
  · split at h <;> cases h
    simp only [inLines]
    split <;> rfl

theorem lineMove_advance_le {t : Timestamp} {c c' : HttpContext} {xs : Bytes} {k : Nat}
    (h : lineMove t c xs = .advance c' k) : 0 < k ∧ k ≤ xs.length := by
  unfold lineMove at h
  split at h
  · split at h
    · cases h
    · rename_i n hn
      have hle := search_kCRLF_le hn
      have hk := onLine_advance h
      rw [List.length_take] at hk
      omega
  · cases h

theorem lineMove_halt_le {t : Timestamp} {c c' : HttpContext} {xs : Bytes} {r : Except Fault Bool}
    {k : Nat} (h : lineMove t c xs = .halt r c' k) : k ≤ xs.length := by
  unfold lineMove at h
  split at h
  · split at h
    · cases h
    · rename_i n hn
      have hle := search_kCRLF_le hn
      have hk := onLine_halt h
      rw [List.length_take] at hk
      omega
  · cases h
    exact Nat.zero_le _

/-- The first CRLF stays where it is when more bytes arrive. -/
theorem lineMove_stable {t : Timestamp} {c : HttpContext} {xs : Bytes}
    (h : lineMove t c xs ≠ .wait) (ys : Bytes) : lineMove t c (xs ++ ys) = lineMove t c xs := by
  unfold lineMove at h ⊢
  split
  · rename_i hc
    rw [if_pos hc] at h
    cases hn : search Buffer.kCRLF xs with
    | none => rw [hn] at h; exact absurd rfl h
    | some n =>
      have hle := search_kCRLF_le hn
      simp only [search_append hn ys]
      rw [List.take_append_of_le_length (by omega)]
  · rfl

/-- **The line states as a scanner.** -/
def lineScanner (t : Timestamp) : Scanner UInt8 HttpContext (Except Fault Bool) where
  move := lineMove t
  advance_le := lineMove_advance_le
  halt_le := lineMove_halt_le
  stable := lineMove_stable

/-! ## A call of `parseRequest` is a scan -/

/-- The rest of a call after the scan `r` of its line states, over the buffer left. -/
def finish (t : Timestamp) (r : Scanned UInt8 HttpContext (Except Fault Bool)) (buf : ByteQueue) :
    Outcome ParseVars :=
  match r.verdict with
  | none => .returns { hasMore := false, context := r.state, buf }
  | some (.error f) => .faults f
  | some (.ok false) => .returns { ok := false, hasMore := false, context := r.state, buf }
  | some (.ok true) =>
    if r.state.state = .kExpectBody then .ofExcept (parseIter t { context := r.state, buf })
    else .returns { hasMore := false, context := r.state, buf }

/-- The readable region up to the CRLF found is the line. -/
theorem slice_peek_crlf (q : ByteQueue) {n : Nat} (h : search Buffer.kCRLF q.readable = some n) :
    slice q.buffer q.peek (q.peek + n) = q.readable.take n := by
  have hle := search_kCRLF_le h
  rw [q.length_readable] at hle
  unfold Buffer.readableBytes at hle
  exact (take_slice (by unfold Buffer.peek; omega)).symm

/-- An iteration in a line state, read off the move of the scanner. -/
theorem parseIter_inLines (t : Timestamp) {c : HttpContext} (hc : c.inLines = true)
    (q : ByteQueue) :
    parseIter t { context := c, buf := q } =
      match lineMove t c q.readable with
      | .wait => .ok { hasMore := false, context := c, buf := q }
      | .advance c' n => .ok { context := c', buf := q.retrieve n }
      | .halt (.error f) _ _ => .error f
      | .halt (.ok false) c' _ => .ok { ok := false, hasMore := false, context := c', buf := q }
      | .halt (.ok true) c' n =>
        .ok { hasMore := c'.state == .kExpectBody, context := c', buf := q.retrieve n } := by
  unfold lineMove
  rw [if_pos hc]
  cases hn : search Buffer.kCRLF q.readable with
  | none =>
    have hfind : q.findCRLF = none := by unfold Buffer.findCRLF; rw [hn]; rfl
    rcases inLines_cases hc with hs | hs <;> simp only [parseIter, hs, hfind]
  | some n =>
    have hfind : q.findCRLF = some (q.peek + n) := by unfold Buffer.findCRLF; rw [hn]; rfl
    have hret : q.retrieveUntil (q.peek + n + 2) = q.retrieve ((q.readable.take n).length + 2) := by
      have hle := search_kCRLF_le hn
      rw [Nat.add_assoc, q.retrieveUntil_peek_add, List.length_take, Nat.min_eq_left (by omega)]
    rcases inLines_cases hc with hs | hs
    · simp only [parseIter, hs, hfind, slice_peek_crlf q hn, hret, onLine, if_true]
      cases processRequestLine c (q.readable.take n) with
      | error f => rfl
      | ok r =>
        obtain ⟨ok, c'⟩ := r
        cases ok <;> rfl
    · simp only [parseIter, hs, hfind, slice_peek_crlf q hn, hret, onLine,
        reduceCtorEq, if_false]
      rcases breakAt 58 (q.readable.take n) with ⟨field, _ | ⟨colon, after⟩⟩
      · simp only
        split <;> rfl
      · rfl

theorem lineMove_waits {t : Timestamp} {c : HttpContext} {xs : Bytes}
    (h : lineMove t c xs = .wait) : c.inLines = true := by
  by_contra hl
  rw [lineMove, if_neg hl] at h
  cases h

/-- The parser stays in the line states as long as it advances. -/
theorem lineMove_advances {t : Timestamp} {c c' : HttpContext} {xs : Bytes} {k : Nat}
    (h : lineMove t c xs = .advance c' k) : c.inLines = true ∧ c'.state = .kExpectHeaders := by
  unfold lineMove at h
  split at h
  · rename_i hc
    refine ⟨hc, ?_⟩
    split at h
    · cases h
    · unfold onLine at h
      split at h
      · split at h <;> cases h
        rfl
      · rename_i hs
        split at h <;> cases h
        exact (inLines_cases hc).resolve_left hs
  · cases h

theorem lineMove_length {t : Timestamp} {c c' : HttpContext} {xs : Bytes} {r : Except Fault Bool}
    {k : Nat} (hl : c.inLines = true) (h : lineMove t c xs = .halt r c' k) : 2 ≤ xs.length := by
  rw [lineMove, if_pos hl] at h
  split at h
  · cases h
  · rename_i hn
    exact Nat.le_trans (Nat.le_add_left 2 _) (search_kCRLF_le hn)

theorem lineMove_rejects {t : Timestamp} {c c' : HttpContext} {xs : Bytes} {k : Nat}
    (h : lineMove t c xs = .halt (.ok false) c' k) : k = 0 := by
  unfold lineMove at h
  split at h
  · split at h
    · cases h
    · exact onLine_rejects h
  · cases h

theorem lineMove_accepts {t : Timestamp} {c c' : HttpContext} {xs : Bytes} {k : Nat}
    (h : lineMove t c xs = .halt (.ok true) c' k) : c'.inLines = false := by
  unfold lineMove at h
  split at h
  · split at h
    · cases h
    · exact onLine_accepts h
  · rename_i hc
    cases h
    simpa using hc

/-- A line that ends the header block is consumed. -/
theorem lineMove_accepts_pos {t : Timestamp} {c c' : HttpContext} {xs : Bytes} {k : Nat}
    (hl : c.inLines = true) (h : lineMove t c xs = .halt (.ok true) c' k) : 0 < k := by
  rw [lineMove, if_pos hl] at h
  split at h
  · cases h
  · unfold onLine at h
    split at h
    · split at h <;> cases h
    · split at h <;> cases h
      omega

/-- The loop is a scan, by induction along the scan: each iteration is one move. What the scan
consumes is retrieved from the buffer. -/
theorem parseLoop_eq (t : Timestamp) (c : HttpContext) (xs : Bytes) (hc : c.state ≠ .kGotAll)
    (q : ByteQueue) (hq : q.readable = xs) (fuel : Nat) (hf : xs.length + 2 ≤ fuel) :
    parseLoop t fuel { context := c, buf := q } =
      finish t ((lineScanner t).scan c xs)
        (q.consume (xs.length - ((lineScanner t).scan c xs).rest.length)) := by
  obtain ⟨fuel, rfl⟩ : ∃ k, fuel = k + 2 := ⟨fuel - 2, by omega⟩
  induction c, xs using (lineScanner t).scan_induction generalizing q fuel with
  | wait c xs h =>
    have hi := parseIter_inLines t (lineMove_waits h) q
    rw [hq, show lineMove t c xs = .wait from h] at hi
    rw [Scanner.scan_wait h]
    simp [parseLoop, hi, finish]
  | advance c xs c' n h ih =>
    obtain ⟨hl, hs'⟩ := lineMove_advances h
    obtain ⟨hpos, hn⟩ := (lineScanner t).advance_le h
    have hi := parseIter_inLines t hl q
    rw [hq, show lineMove t c xs = .advance c' n from h] at hi
    have hrun := ih (by rw [hs']; exact fun e => by cases e) (q.retrieve n)
      (by rw [ByteQueue.readable_retrieve, hq]) (fuel - 1)
      (by rw [List.length_drop]; omega)
    have hsuffix := ((lineScanner t).scan_rest_suffix c' (xs.drop n)).length_le
    have hlen := q.length_readable
    rw [hq] at hlen
    rw [List.length_drop] at hrun hsuffix
    rw [ByteQueue.consume_retrieve q hpos (by omega)] at hrun
    rw [Scanner.scan_advance h, show fuel + 2 = fuel - 1 + 2 + 1 by omega, parseLoop, if_pos rfl,
      hi]
    simp only
    rw [hrun]
    congr 2
    omega
  | halt c xs r c' n h =>
    have hn := (lineScanner t).halt_le h
    have hconsumed : xs.length - (xs.drop n).length = n := by
      rw [List.length_drop]
      omega
    rw [Scanner.scan_halt h]
    simp only [hconsumed]
    by_cases hl : c.inLines = true
    · have hi := parseIter_inLines t hl q
      rw [hq, show lineMove t c xs = .halt r c' n from h] at hi
      rcases r with f | _ | _
      · simp [parseLoop, hi, finish]
      · obtain rfl := lineMove_rejects h
        simp [parseLoop, hi, finish]
      · rw [ByteQueue.consume_of_pos q (lineMove_accepts_pos hl h), parseLoop, if_pos rfl, hi]
        by_cases hb : c'.state = .kExpectBody
        · have hlen := lineMove_length hl h
          obtain ⟨k, rfl⟩ : ∃ k, fuel = k + 1 := ⟨fuel - 1, by omega⟩
          simp only [hb, beq_self_eq_true, finish, if_true]
          exact parseLoop_body t hb (q.retrieve n) k
        · simp [parseLoop, finish, hb]
    · have hb : c.state = .kExpectBody := by
        cases hs : c.state <;> simp_all [inLines]
      have hm : lineMove t c xs = .halt (.ok true) c 0 := by rw [lineMove, if_neg hl]
      cases hm.symm.trans h
      rw [parseLoop_body t hb, finish, ByteQueue.consume_zero]
      simp only [hb, if_true]

/-- A call of `parseRequest` retrieves what the scan of the readable bytes consumes. -/
theorem parseRequest_consume {c : HttpContext} (hc : c.state ≠ .kGotAll) (q : ByteQueue)
    (t : Timestamp) {r : Scanned UInt8 HttpContext (Except Fault Bool)}
    (hr : (lineScanner t).scan c q.readable = r) :
    parseRequest c q t = finish t r (q.consume (q.readableBytes - r.rest.length)) := by
  have h := parseLoop_eq t c q.readable hc q rfl _ (Nat.le_refl _)
  rwa [q.length_readable, hr] at h

/-- **A call of `parseRequest` is a scan** of the readable bytes, and the body state after it. -/
theorem parseRequest_eq {c : HttpContext} (hc : c.state ≠ .kGotAll) (q : ByteQueue)
    (t : Timestamp) :
    ∃ buf : ByteQueue, buf.readable = ((lineScanner t).scan c q.readable).rest ∧
      parseRequest c q t = finish t ((lineScanner t).scan c q.readable) buf := by
  refine ⟨_, ?_, parseRequest_consume hc q t rfl⟩
  rw [ByteQueue.readable_consume, ← q.length_readable]
  exact (List.suffix_iff_eq_drop.mp ((lineScanner t).scan_rest_suffix c q.readable)).symm

/-! ## The time of a call -/

/-- The context but for `receiveTime`. -/
def untimed (c : HttpContext) : HttpContext :=
  { c with request := c.request.setReceiveTime ⟨0⟩ }

@[simp] theorem untimed_state (c : HttpContext) : c.untimed.state = c.state := rfl

theorem setMethod_setReceiveTime (r : HttpRequest) (t : Timestamp) (m : Bytes) :
    (r.setReceiveTime t).setMethod m =
      (r.setMethod m).map fun x => (x.1, x.2.setReceiveTime t) := by
  by_cases h : r.method = .kInvalid
  · simp [HttpRequest.setMethod, HttpRequest.setReceiveTime, h, Except.map]
  · simp [HttpRequest.setMethod, HttpRequest.setReceiveTime, h, Except.map]

theorem processVersion_untimed (c : HttpContext) (text : Bytes) :
    c.untimed.processVersion text =
      ((c.processVersion text).1, (c.processVersion text).2.untimed) := by
  unfold processVersion
  split
  · split
    · rfl
    · split <;> rfl
  · rfl

theorem processTarget_untimed (c : HttpContext) (target : Bytes) :
    c.untimed.processTarget target = (c.processTarget target).untimed := by
  unfold processTarget
  split <;> rfl

theorem processRequestLine_untimed (c : HttpContext) (line : Bytes) :
    c.untimed.processRequestLine line =
      (c.processRequestLine line).map fun r => (r.1, r.2.untimed) := by
  unfold processRequestLine
  rcases breakAt 32 line with ⟨method, _ | ⟨sp, afterMethod⟩⟩
  · rfl
  · simp only [untimed, setMethod_setReceiveTime]
    cases c.request.setMethod method with
    | error f => rfl
    | ok r =>
      obtain ⟨known, request⟩ := r
      cases known with
      | false => rfl
      | true =>
        rcases breakAt 32 afterMethod with ⟨target, _ | ⟨sp', version⟩⟩
        · rfl
        · have hv := processVersion_untimed (processTarget { c with request } target) version
          rw [← processTarget_untimed] at hv
          exact congrArg Except.ok hv

theorem onLine_untimed (t : Timestamp) (c : HttpContext) (line : Bytes) :
    c.untimed.onLine ⟨0⟩ line = (c.onLine t line).map untimed := by
  by_cases hs : c.state = .kExpectRequestLine
  · simp only [onLine, untimed_state, hs, if_true, processRequestLine_untimed]
    cases c.processRequestLine line with
    | error f => rfl
    | ok r =>
      obtain ⟨ok, c'⟩ := r
      cases ok <;> rfl
  · simp only [onLine, untimed_state, hs, if_false]
    rcases breakAt 58 line with ⟨field, _ | ⟨colon, after⟩⟩ <;> rfl

theorem lineMove_untimed (t : Timestamp) (c : HttpContext) (xs : Bytes) :
    lineMove ⟨0⟩ c.untimed xs = (lineMove t c xs).map untimed := by
  have hl : c.untimed.inLines = c.inLines := rfl
  unfold lineMove
  rw [hl]
  split
  · split
    · rfl
    · exact onLine_untimed t c _
  · rfl

/-- Apart from `receiveTime`, a scan does not depend on when it is made. -/
theorem lineScanner_untimed (t : Timestamp) (c : HttpContext) (xs : Bytes) :
    (lineScanner ⟨0⟩).scan c.untimed xs = ((lineScanner t).scan c xs).map untimed :=
  Scanner.scan_map (lineMove_untimed t) c xs

/-! ## Where a scan ends -/

/-- Without input a fresh parser waits. -/
theorem scan_nil (t : Timestamp) : (lineScanner t).scan {} [] = ⟨none, {}, []⟩ :=
  Scanner.scan_wait rfl

/-- A scan that waits is in a line state. -/
theorem scan_waits_inLines (t : Timestamp) (c : HttpContext) (xs : Bytes)
    (h : ((lineScanner t).scan c xs).verdict = none) :
    ((lineScanner t).scan c xs).state.inLines = true := by
  induction c, xs using (lineScanner t).scan_induction with
  | wait c xs hm => rw [Scanner.scan_wait hm]; exact lineMove_waits hm
  | advance c xs c' n hm ih => rw [Scanner.scan_advance hm] at h ⊢; exact ih h
  | halt c xs r c' n hm => rw [Scanner.scan_halt hm] at h; cases h

/-- A scan that halts with `true` has left the line states. -/
theorem scan_accepts_not_inLines (t : Timestamp) (c : HttpContext) (xs : Bytes)
    (h : ((lineScanner t).scan c xs).verdict = some (.ok true)) :
    ((lineScanner t).scan c xs).state.inLines = false := by
  induction c, xs using (lineScanner t).scan_induction with
  | wait c xs hm => rw [Scanner.scan_wait hm] at h; cases h
  | advance c xs c' n hm ih => rw [Scanner.scan_advance hm] at h ⊢; exact ih h
  | halt c xs r c' n hm =>
    rw [Scanner.scan_halt hm] at h ⊢
    cases h
    exact lineMove_accepts hm

/-- A scan that rejects a request line has moved nowhere before. -/
theorem scan_rejects (t : Timestamp) (c : HttpContext) (xs : Bytes)
    (h : ((lineScanner t).scan c xs).verdict = some (.ok false)) :
    c.state = .kExpectRequestLine ∧ ((lineScanner t).scan c xs).rest = xs ∧
      ∃ n, search Buffer.kCRLF xs = some n ∧
        c.processRequestLine (xs.take n) = .ok (false, ((lineScanner t).scan c xs).state) := by
  induction c, xs using (lineScanner t).scan_induction with
  | wait c xs hm => rw [Scanner.scan_wait hm] at h; cases h
  | advance c xs c' n hm ih =>
    rw [Scanner.scan_advance hm] at h
    have hs := (ih h).1
    rw [(lineMove_advances hm).2] at hs
    cases hs
  | halt c xs r c' n hm =>
    rw [Scanner.scan_halt hm] at h ⊢
    cases h
    replace hm : lineMove t c xs = .halt (.ok false) c' n := hm
    obtain rfl := lineMove_rejects hm
    unfold lineMove at hm
    split at hm
    · split at hm
      · cases hm
      · rename_i k hk
        unfold onLine at hm
        split at hm
        · rename_i hs
          split at hm <;> cases hm
          rename_i hp
          exact ⟨hs, rfl, k, hk, hp⟩
        · split at hm <;> cases hm
    · cases hm

/-- `parseRequest_eq` on the scanner that does not keep the time. -/
theorem parseRequest_untimed {c : HttpContext} (hc : c.state ≠ .kGotAll) (q : ByteQueue)
    (t : Timestamp) {r : Scanned UInt8 HttpContext (Except Fault Bool)}
    (hr : (lineScanner ⟨0⟩).scan c.untimed q.readable = r) :
    ∃ (c' : HttpContext) (buf : ByteQueue), c'.untimed = r.state ∧ buf.readable = r.rest ∧
      parseRequest c q t = finish t ⟨r.verdict, c', r.rest⟩ buf := by
  obtain ⟨buf, hbuf, hrun⟩ := parseRequest_eq hc q t
  rw [lineScanner_untimed t] at hr
  subst hr
  exact ⟨_, buf, rfl, hbuf, hrun⟩

/-- A call whose scan neither faults nor ends at a body returns what the scan ends with, and the
parser goes on exactly if the scan waits. -/
theorem parseRequest_lines {c : HttpContext} (hc : c.state ≠ .kGotAll) (q : ByteQueue)
    (t : Timestamp) {r : Scanned UInt8 HttpContext (Except Fault Bool)}
    (hr : (lineScanner ⟨0⟩).scan c.untimed q.readable = r)
    (hf : ∀ f, r.verdict ≠ some (.error f)) (hb : r.state.state ≠ .kExpectBody) :
    ∃ v, parseRequest c q t = .returns v ∧ v.context.untimed = r.state ∧
      v.buf.readable = r.rest ∧ (v.ok = false ↔ r.verdict = some (.ok false)) ∧
      (v.ok && !v.context.gotAll) = r.verdict.isNone := by
  obtain ⟨c', buf, hc', hbuf, hrun⟩ := parseRequest_untimed hc q t hr
  have hs : c'.state = r.state.state := by rw [← hc']; rfl
  rw [hrun]
  rcases hv : r.verdict with _ | f | _ | _
  · have hl : r.state.inLines = true := by
      rw [← hr] at hv ⊢
      exact scan_waits_inLines ⟨0⟩ _ _ hv
    have hg : c'.gotAll = false := by
      rw [gotAll, hs]
      simpa using (inLines_ne hl).2
    exact ⟨_, rfl, hc', hbuf, by simp, by simp [hg]⟩
  · exact absurd hv (hf f)
  · exact ⟨_, rfl, hc', hbuf, by simp, rfl⟩
  · have hl : r.state.inLines = false := by
      rw [← hr] at hv ⊢
      exact scan_accepts_not_inLines ⟨0⟩ _ _ hv
    have hg : c'.gotAll = true := by
      rw [gotAll, hs]
      cases h : r.state.state <;> simp_all [inLines]
    refine ⟨{ hasMore := false, context := c', buf }, ?_, hc', hbuf, by simp, by simp [hg]⟩
    simp only [finish, hs, hb, if_false]

end HttpContext

end SimpleHttpServer
