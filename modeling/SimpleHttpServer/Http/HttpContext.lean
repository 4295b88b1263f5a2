import SimpleHttpServer.Http.HttpRequest
import SimpleHttpServer.Net.ByteQueue

/-!
# `HttpContext`: the resumable request parser

`http/HttpContext.h` and `http/HttpContext.cpp`. `parseIter` is the body of the `while (hasMore)`
loop and `parseLoop` the loop with a step budget; `parseRequest` gives it one that every loop which
ends at all stays within (`parseLoop_add`). In state `kGotAll` no iteration changes anything and the
loop spins (`parseLoop_gotAll`).

The body state reads `[peek(), peek() + contentlen)` whatever is buffered: bytes past
`beginWrite()` are those the vector still holds, and past the vector's end the read is a fault.
`overread` records that such a byte was read; the code has no such variable.
-/

namespace SimpleHttpServer

open Lib.Store Lib.Search

/-- `HttpContext::HttpRequestParseState`. -/
inductive HttpRequestParseState where
  | kExpectRequestLine | kExpectHeaders | kExpectBody | kGotAll
  deriving DecidableEq, Repr

/-- `class HttpContext`. -/
structure HttpContext where
  state : HttpRequestParseState := .kExpectRequestLine
  request : HttpRequest := {}
  deriving DecidableEq

/-- `std::string::assign(peek(), peek() + n)`. -/
def Buffer.assignFrom (b : Buffer) (n : Int) : Except Fault Bytes :=
  if n < 0 then .error .lengthError
  else if b.peek + n.toNat ≤ b.buffer.length then .ok (slice b.buffer b.peek (b.peek + n.toNat))
  else .error .overrun

namespace HttpContext

/-- `gotAll()`. -/
def gotAll (c : HttpContext) : Bool := c.state == .kGotAll

/-- `reset()`. -/
def reset (_ : HttpContext) : HttpContext := {}

/-- The version part of `processRequestLine`, for the text after the second space. -/
def processVersion (c : HttpContext) (text : Bytes) : Bool × HttpContext :=
  if text.length = 8 ∧ text.take 7 = ascii "HTTP/1." then
    if text.drop 7 = ascii "1" then
      (true, { c with request := c.request.setVersion .kHttp11 })
    else if text.drop 7 = ascii "0" then
      (true, { c with request := c.request.setVersion .kHttp10 })
    else (false, c)
  else (false, c)

/-- The URL part of `processRequestLine`: the path, and from the first `?` on the query. -/
def processTarget (c : HttpContext) (target : Bytes) : HttpContext :=
  match breakAt 63 target with
  | (path, []) => { c with request := c.request.setPath path }
  | (path, query) => { c with request := (c.request.setPath path).setQuery query }

/-- `processRequestLine(begin, end)`, of the line `[begin, end)`. -/
def processRequestLine (c : HttpContext) (line : Bytes) : Except Fault (Bool × HttpContext) :=
  match breakAt 32 line with
  | (_, []) => .ok (false, c)
  | (method, _ :: afterMethod) =>
    match c.request.setMethod method with
    | .error f => .error f
    | .ok (false, request) => .ok (false, { c with request })
    | .ok (true, request) =>
      match breakAt 32 afterMethod with
      | (_, []) => .ok (false, { c with request })
      | (target, _ :: version) =>
        .ok (processVersion (processTarget { c with request } target) version)

/-- The variables of `parseRequest`. -/
structure ParseVars where
  ok : Bool := true
  hasMore : Bool := true
  context : HttpContext
  buf : ByteQueue
  overread : Bool := false

/-- One iteration of the `while (hasMore)` loop. -/
def parseIter (receiveTime : Timestamp) (v : ParseVars) : Except Fault ParseVars :=
  match v.context.state with
  | .kExpectRequestLine =>
    match v.buf.findCRLF with
    | none => .ok { v with hasMore := false }
    | some crlf =>
      match v.context.processRequestLine (slice v.buf.buffer v.buf.peek crlf) with
      | .error f => .error f
      | .ok (true, context) =>
        .ok { v with
          ok := true
          context := ⟨.kExpectHeaders, context.request.setReceiveTime receiveTime⟩
          buf := v.buf.retrieveUntil (crlf + 2) }
      | .ok (false, context) => .ok { v with ok := false, context, hasMore := false }
  | .kExpectHeaders =>
    match v.buf.findCRLF with
    | none => .ok { v with hasMore := false }
    | some crlf =>
      let buf := v.buf.retrieveUntil (crlf + 2)
      match breakAt 58 (slice v.buf.buffer v.buf.peek crlf) with
      | (field, _ :: after) =>
        .ok { v with
          context := { v.context with request := v.context.request.addHeader field after }, buf }
      -- empty line, end of header: taken for one whenever the line has no colon
      | (_, []) =>
        if v.context.request.method = .kPost then
          .ok { v with context := { v.context with state := .kExpectBody }, buf }
        else
          .ok { v with context := { v.context with state := .kGotAll }, buf, hasMore := false }
  | .kExpectBody =>
    match stoi (v.context.request.getHeader (ascii "Content-Length")) with
    | .error f => .error f
    | .ok contentlen =>
      match v.buf.assignFrom contentlen with
      | .error f => .error f
      | .ok body =>
        .ok { v with
          context := ⟨.kGotAll, v.context.request.setBody body⟩
          buf := v.buf.retrieveUntil (v.buf.peek + contentlen.toNat)
          hasMore := false
          overread := decide (v.buf.readableBytes < contentlen.toNat) }
  | .kGotAll => .ok v

/-- The loop, for at most `fuel` tests of `hasMore`. -/
def parseLoop (receiveTime : Timestamp) : Nat → ParseVars → Outcome ParseVars
  | 0, _ => .diverges
  | fuel + 1, v =>
    if v.hasMore then
      match parseIter receiveTime v with
      | .error f => .faults f
      | .ok v' => parseLoop receiveTime fuel v'
    else
      .returns v

/-- `parseRequest(buf, receiveTime)`. -/
def parseRequest (c : HttpContext) (buf : ByteQueue) (receiveTime : Timestamp) :
    Outcome ParseVars :=
  parseLoop receiveTime (buf.readableBytes + 2) { context := c, buf }

/-! ## The budget -/

/-- A loop that ends ends the same way with a larger budget. -/
theorem parseLoop_add (t : Timestamp) : ∀ {fuel : Nat} {v : ParseVars},
    parseLoop t fuel v ≠ .diverges → ∀ k, parseLoop t (fuel + k) v = parseLoop t fuel v
  | 0, _, h, _ => absurd rfl h
  | fuel + 1, v, h, k => by
    rw [Nat.add_right_comm]
    simp only [parseLoop] at h ⊢
    split
    · rename_i hm
      rw [if_pos hm] at h
      split
      · rfl
      · rename_i v' hv
        rw [hv] at h
        exact parseLoop_add t h k
    · rfl

/-- In state `kGotAll` the loop spins. -/
theorem parseLoop_gotAll (t : Timestamp) {v : ParseVars} (hs : v.context.state = .kGotAll)
    (hm : v.hasMore = true) : ∀ fuel, parseLoop t fuel v = .diverges
  | 0 => rfl
  | fuel + 1 => by
    have hv : parseIter t v = .ok v := by unfold parseIter; rw [hs]
    rw [parseLoop, if_pos hm, hv]
    exact parseLoop_gotAll t hs hm fuel

/-! ## The body state -/

/-- The loop in state `kExpectBody`: one iteration. -/
theorem parseLoop_body (t : Timestamp) {c : HttpContext} (hs : c.state = .kExpectBody)
    (q : ByteQueue) (fuel : Nat) :
    parseLoop t (fuel + 2) { context := c, buf := q } =
      .ofExcept (parseIter t { context := c, buf := q }) := by
  rw [parseLoop, if_pos rfl]
  cases hi : parseIter t { context := c, buf := q } with
  | error f => rfl
  | ok v =>
    have hm : v.hasMore = false := by
      simp only [parseIter, hs] at hi
      split at hi
      · cases hi
      · split at hi <;> cases hi
        rfl
    simp only [parseLoop, hm, Bool.false_eq_true, if_false]
    rfl

/-- With `Content-Length` bytes buffered, the body is exactly these. -/
theorem parseIter_body (t : Timestamp) {c : HttpContext} (hs : c.state = .kExpectBody)
    {q : ByteQueue} {n : Nat} (hn : stoi (c.request.getHeader (ascii "Content-Length")) = .ok n)
    (hle : n ≤ q.readableBytes) :
    parseIter t { context := c, buf := q } =
      .ok { hasMore := false
            context := ⟨.kGotAll, c.request.setBody (q.readable.take n)⟩
            buf := q.retrieve n } := by
  obtain ⟨-, hr, hw⟩ := q.wf
  unfold Buffer.readableBytes at hle
  have hassign : q.assignFrom n = .ok (q.readable.take n) := by
    have hfit : q.peek + n ≤ q.buffer.length := by unfold Buffer.peek; omega
    have htake : slice q.buffer q.peek (q.peek + n) = q.readable.take n :=
      (take_slice (by unfold Buffer.peek; omega)).symm
    rw [Buffer.assignFrom, if_neg (by omega), Int.toNat_natCast, if_pos hfit, htake]
  have hover : decide (q.readableBytes < n) = false := by
    unfold Buffer.readableBytes
    exact decide_eq_false (by omega)
  simp only [parseIter, hs, hn, hassign, Int.toNat_natCast, q.retrieveUntil_peek_add, hover]

/-- An iteration in the body state that returns has got all. -/
theorem parseIter_body_ok {t : Timestamp} {v v' : ParseVars} (hs : v.context.state = .kExpectBody)
    (h : parseIter t v = .ok v') : v'.context.gotAll = true ∧ v'.ok = v.ok := by
  simp only [parseIter, hs] at h
  split at h
  · cases h
  · split at h <;> cases h
    exact ⟨rfl, rfl⟩

/-- The body state succeeds exactly if the length is not negative, and that many bytes from `peek()`
on lie in the vector. -/
theorem parseIter_body_iff (t : Timestamp) {c : HttpContext} (hs : c.state = .kExpectBody)
    (q : ByteQueue) :
    (∃ v, parseIter t { context := c, buf := q } = .ok v) ↔
      ∃ n : Nat, stoi (c.request.getHeader (ascii "Content-Length")) = .ok n ∧
        q.peek + n ≤ q.buffer.length := by
  simp only [parseIter, hs]
  cases hstoi : stoi (c.request.getHeader (ascii "Content-Length")) with
  | error f => simp
  | ok z =>
    by_cases hneg : z < 0
    · have hno : ∀ n : Nat, z ≠ n := fun n => by omega
      simp [Buffer.assignFrom, hneg, hno]
    · obtain ⟨n, rfl⟩ : ∃ n : Nat, z = n := ⟨z.toNat, by omega⟩
      by_cases hfit : q.peek + n ≤ q.buffer.length
      · have hassign : q.assignFrom n = .ok (slice q.buffer q.peek (q.peek + n)) := by
          rw [Buffer.assignFrom, if_neg hneg, Int.toNat_natCast, if_pos hfit]
        simp [hassign, hfit]
      · have hassign : q.assignFrom n = .error .overrun := by
          rw [Buffer.assignFrom, if_neg hneg, Int.toNat_natCast, if_neg hfit]
        simp [hassign, hfit]

/-- What the body state throws. -/
theorem parseIter_body_error {t : Timestamp} {v : ParseVars} {f : Fault}
    (hs : v.context.state = .kExpectBody) (h : parseIter t v = .error f) : f ≠ .assertion := by
  simp only [parseIter, hs] at h
  split at h
  · rename_i hstoi
    obtain rfl := Except.error.inj h
    rcases stoi_error hstoi with rfl | rfl <;> decide
  · split at h
    · rename_i hassign
      obtain rfl := Except.error.inj h
      unfold Buffer.assignFrom at hassign
      split at hassign
      · obtain rfl := Except.error.inj hassign
        decide
      · split at hassign
        · cases hassign
        · obtain rfl := Except.error.inj hassign
          decide
    · cases h

/-- With fewer bytes buffered the state does not wait: it reads past `beginWrite()`. -/
theorem parseIter_body_short (t : Timestamp) {c : HttpContext} (hs : c.state = .kExpectBody)
    {q : ByteQueue} {n : Nat} (hn : stoi (c.request.getHeader (ascii "Content-Length")) = .ok n)
    (hlt : q.readableBytes < n) {v : ParseVars}
    (hv : parseIter t { context := c, buf := q } = .ok v) :
    v.overread = true ∧ v.context.state = .kGotAll := by
  simp only [parseIter, hs, hn, Int.toNat_natCast] at hv
  split at hv
  · cases hv
  · cases hv
    exact ⟨decide_eq_true hlt, rfl⟩

end HttpContext

end SimpleHttpServer
