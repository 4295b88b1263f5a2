import SimpleHttpServer.Http.HttpResponse
import SimpleHttpServer.Http.Segmentation

/-!
# `HttpServer`: one connection's messages

`http/HttpServer.cpp`, for one connection: its `HttpContext`, its input buffer, and in `log` the
calls the server makes, on the connection and of `httpCallback_`, in order. What the callback does
may depend on everything before; it is a parameter.
-/

namespace SimpleHttpServer

/-- A call `HttpServer` makes. -/
inductive ServerCall where
  | send (buf : Bytes)
  | shutdown
  | httpCallback (req : HttpRequest)
  deriving DecidableEq

/-- `HttpCallback`: the response it leaves, given the calls made before. -/
abbrev HttpCallback := List ServerCall → HttpRequest → HttpResponse → HttpResponse

/-- `defaultHttpCallback`. -/
def defaultHttpCallback : HttpCallback := fun _ _ resp =>
  ((resp.setStatusCode .k404NotFound).setStatusMessage (ascii "Not Found")).setCloseConnection true

/-- A connection, as far as `HttpServer` uses it. -/
structure Session where
  context : HttpContext := {}
  inputBuffer : ByteQueue := ByteQueue.new Buffer.kInitialSize
  log : List ServerCall := []

namespace Session

/-- The call is logged. -/
def call (s : Session) (c : ServerCall) : Session := { s with log := s.log ++ [c] }

end Session

namespace HttpServer

variable (httpCallback : HttpCallback)

/-- The reply to a request line that does not parse. -/
def badRequest : Bytes := ascii "HTTP/1.1 400 Bad Request\r\n\r\n"

/-- Whether `onRequest` will close the connection after its response. -/
def wantsClose (req : HttpRequest) : Bool :=
  let connection := req.getHeader (ascii "Connection")
  connection == ascii "close" || (req.version == .kHttp10 && connection != ascii "Keep-Alive")

/-- `onRequest(conn, req)`. -/
def onRequest (s : Session) (req : HttpRequest) : Except Fault Session :=
  let response := httpCallback s.log req { closeConnection := wantsClose req }
  let s := s.call (.httpCallback req)
  match response.appendToBuffer (ByteQueue.new Buffer.kInitialSize) with
  | .error f => .error f
  | .ok buf =>
    let s := s.call (.send buf.retrieveAllAsString.1)
    if response.closeConnection then .ok (s.call .shutdown) else .ok s

/-- `onMessage(conn, buf, receiveTime)`. -/
def onMessage (s : Session) (receiveTime : Timestamp) : Outcome Session :=
  match s.context.parseRequest s.inputBuffer receiveTime with
  | .faults f => .faults f
  | .diverges => .diverges
  | .returns v =>
    let s := { s with context := v.context, inputBuffer := v.buf }
    let s := if v.ok then s
      else (s.call (.send badRequest)).call .shutdown
    if s.context.gotAll then
      match onRequest httpCallback s s.context.request with
      | .error f => .faults f
      | .ok s => .returns { s with context := s.context.reset }
    else .returns s

/-- `handleRead` with data: `readFd` puts the chunk into the input buffer, then `onMessage`. -/
def deliver (s : Session) (chunk : Bytes) (receiveTime : Timestamp) : Outcome Session :=
  onMessage httpCallback { s with inputBuffer := s.inputBuffer.readFd chunk } receiveTime

/-- Chunks delivered one after another, until a call does not return. -/
def run (s : Session) : List (Bytes × Timestamp) → Outcome Session
  | [] => .returns s
  | (chunk, t) :: chunks =>
    match deliver httpCallback s chunk t with
    | .returns s => run s chunks
    | .faults f => .faults f
    | .diverges => .diverges

/-- Every response the callback makes of the one `onRequest` gives it can be encoded. -/
def Encodes : Prop :=
  ∀ log req close, HttpResponse.Encodable (httpCallback log req { closeConnection := close })

variable {httpCallback}

/-- `onRequest` calls the callback once, and what it leaves of the session is the rest. -/
theorem onRequest_spec (h : Encodes httpCallback) (s : Session) (req : HttpRequest) :
    ∃ after, onRequest httpCallback s req =
        .ok { s with log := s.log ++ .httpCallback req :: after } ∧
      ∀ r, .httpCallback r ∉ after := by
  obtain ⟨buf, hbuf, -⟩ := HttpResponse.appendToBuffer_of_encodable
    (h s.log req (wantsClose req)) (ByteQueue.new Buffer.kInitialSize)
  unfold onRequest
  simp only [hbuf]
  split
  · exact ⟨[.send buf.retrieveAllAsString.1, .shutdown], by simp [Session.call], by simp⟩
  · exact ⟨[.send buf.retrieveAllAsString.1], by simp [Session.call], by simp⟩

theorem foldlM_appendString_error : ∀ (ps : List Bytes) {q : ByteQueue} {f : Fault},
    ps.foldlM ByteQueue.appendString q = .error f → f = .negativeCopy
  | [], q, f, h => by cases h
  | p :: ps, q, f, h => by
    rw [List.foldlM_cons] at h
    cases hp : q.appendString p with
    | error g =>
      rw [hp] at h
      obtain rfl := Except.error.inj h
      unfold ByteQueue.appendString at hp
      split at hp
      · cases hp
      · exact (Except.error.inj hp).symm
    | ok q' =>
      rw [hp] at h
      exact foldlM_appendString_error ps h

/-- The only way `onRequest` goes wrong is a response too long to append. -/
theorem onRequest_error {s : Session} {req : HttpRequest} {f : Fault}
    (h : onRequest httpCallback s req = .error f) : f = .negativeCopy := by
  unfold onRequest at h
  simp only at h
  split at h
  · rename_i hbuf
    obtain rfl := Except.error.inj h
    exact foldlM_appendString_error _ hbuf
  · split at h <;> cases h

/-! ## One delivery -/

open Lib HttpContext

/-- What a delivery does, by the scan of the line states over the bytes unread. -/
theorem deliver_cases (httpCallback : HttpCallback) (s : Session)
    (hl : s.context.inLines = true) (chunk : Bytes) (t : Timestamp)
    {r : Scanned UInt8 HttpContext (Except Fault Bool)}
    (hr : (lineScanner t).scan s.context (s.inputBuffer.readable ++ chunk) = r) :
    (r.verdict = none ∧ ∃ buf : ByteQueue, buf.readable = r.rest ∧
      deliver httpCallback s chunk t =
        .returns { s with context := r.state, inputBuffer := buf }) ∨
    (∃ f, r.verdict = some (.error f) ∧ deliver httpCallback s chunk t = .faults f) ∨
    (r.verdict = some (.ok false) ∧ ∃ buf : ByteQueue, buf.readable = r.rest ∧
      deliver httpCallback s chunk t =
        .returns ⟨r.state, buf, s.log ++ [.send badRequest, .shutdown]⟩) ∨
    (r.verdict = some (.ok true) ∧
      ((∃ f, f ≠ .assertion ∧ deliver httpCallback s chunk t = .faults f) ∨
        ∃ s', deliver httpCallback s chunk t = .returns s' ∧ s'.context = {})) := by
  obtain ⟨buf, hbuf, hrun⟩ := parseRequest_eq (inLines_ne hl).2 (s.inputBuffer.readFd chunk) t
  rw [ByteQueue.readable_readFd, hr] at hbuf hrun
  have hgot : ∀ v : ParseVars, v.ok = true → v.context.gotAll = true →
      s.context.parseRequest (s.inputBuffer.readFd chunk) t = .returns v →
      (∃ f, f ≠ .assertion ∧ deliver httpCallback s chunk t = .faults f) ∨
        ∃ s', deliver httpCallback s chunk t = .returns s' ∧ s'.context = {} := by
    intro v hok hg hv
    simp only [deliver, onMessage, hv, hok, hg, if_true]
    cases hreq : onRequest httpCallback { s with context := v.context, inputBuffer := v.buf }
        v.context.request with
    | error f => exact Or.inl ⟨f, by rw [onRequest_error hreq]; decide, rfl⟩
    | ok s' => exact Or.inr ⟨_, rfl, rfl⟩
  rcases hv : r.verdict with _ | f | _ | _
  · have hl' : r.state.inLines = true := by
      rw [← hr] at hv ⊢
      exact scan_waits_inLines t _ _ hv
    have hg : r.state.gotAll = false := by
      simpa [gotAll] using (inLines_ne hl').2
    refine Or.inl ⟨rfl, buf, hbuf, ?_⟩
    simp only [deliver, onMessage, hrun, finish, hv, hg, if_true, Bool.false_eq_true, if_false]
  · refine Or.inr (Or.inl ⟨f, rfl, ?_⟩)
    simp only [deliver, onMessage, hrun, finish, hv]
  · rw [← hr] at hv
    obtain ⟨hs, -, n, -, hp⟩ := scan_rejects t _ _ hv
    have hg : r.state.gotAll = false := by
      rw [← hr, gotAll, processRequestLine_state hp, hs]
      rfl
    rw [hr] at hv
    refine Or.inr (Or.inr (Or.inl ⟨rfl, buf, hbuf, ?_⟩))
    simp [deliver, onMessage, hrun, finish, hv, hg, Session.call]
  · refine Or.inr (Or.inr (Or.inr ⟨rfl, ?_⟩))
    by_cases hb : r.state.state = .kExpectBody
    · cases hi : parseIter t { context := r.state, buf } with
      | error f =>
        refine Or.inl ⟨f, parseIter_body_error hb hi, ?_⟩
        simp only [deliver, onMessage, hrun, finish, hv, hb, hi, if_true, Outcome.ofExcept]
      | ok v =>
        refine hgot v ?_ ?_ (by rw [hrun, finish]; simp only [hv, hb, hi, if_true]; rfl)
        · exact (parseIter_body_ok hb hi).2
        · exact (parseIter_body_ok hb hi).1
    · have hl' : r.state.inLines = false := by
        rw [← hr] at hv ⊢
        exact scan_accepts_not_inLines t _ _ hv
      have hg : r.state.gotAll = true := by
        rw [gotAll]
        cases h : r.state.state <;> simp_all [inLines]
      refine hgot { hasMore := false, context := r.state, buf } rfl hg ?_
      rw [hrun, finish]
      simp only [hv, hb, if_false]

end HttpServer

end SimpleHttpServer
