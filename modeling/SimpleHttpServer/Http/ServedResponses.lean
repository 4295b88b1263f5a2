import SimpleHttpServer.Http.HttpConnection
import SimpleHttpServer.Http.Pipelining
import SimpleHttpServer.Http.ResponseStream

/-!
# What the client of a served connection reads

`responsesOf` are the responses that `httpCallback_` has left, one for each request it was called
with. `readConnection` is the client of a connection: it reads responses by their `Content-Length`
for as long as it can, and the last one up to the end of the stream.

* `Answered` is the invariant of the log of a session, for any bytes that arrive: the payloads in
  front of the first `shutdown` are the printed responses in order, all of them kept alive but
  perhaps the last, and at their end perhaps the reply to a bad request;
* **`client_reads_responses`**: when the output has drained, the client of a served connection has
  read the responses made in front of the first `shutdown`, in order and nothing else;
* **`pipelined_client_reads`**: a client that sends requests which leave the connection open reads
  one response for each request that was handled, and all were exactly if the deliveries keep up.

`Prints` and `LeavesOpen` are what `httpCallback_` must do for these two; no write finds that the
peer is gone, as in every run of `ServedRun`.
-/

namespace SimpleHttpServer

open Lib Lib.Frames HttpResponse ServerCall

namespace ServerCall

/-- The calls in front of the first `shutdown`. -/
def inFront : List ServerCall → List ServerCall
  | [] => []
  | .send buf :: log => .send buf :: inFront log
  | .shutdown :: _ => []
  | .httpCallback req :: log => .httpCallback req :: inFront log

theorem inFront_append (xs ys : List ServerCall) :
    inFront (xs ++ ys) = inFront xs ++ if .shutdown ∈ xs then [] else inFront ys := by
  induction xs with
  | nil => simp [inFront]
  | cons x xs ih =>
    cases x with
    | send buf => simp [inFront, ih]
    | shutdown => simp [inFront]
    | httpCallback req => simp [inFront, ih]

theorem inFront_initial (log : List ServerCall) : inFront log <+: log := by
  induction log with
  | nil => exact List.prefix_rfl
  | cons x log ih =>
    cases x with
    | send buf => exact List.cons_prefix_cons.mpr ⟨rfl, ih⟩
    | shutdown => exact List.nil_prefix
    | httpCallback req => exact List.cons_prefix_cons.mpr ⟨rfl, ih⟩

theorem inFront_of_not_mem {log : List ServerCall} (h : .shutdown ∉ log) : inFront log = log := by
  induction log with
  | nil => rfl
  | cons x log ih =>
    rw [List.mem_cons, not_or] at h
    cases x with
    | send buf => rw [inFront, ih h.2]
    | shutdown => exact absurd rfl h.1
    | httpCallback req => rw [inFront, ih h.2]

end ServerCall

namespace HttpServer

variable (httpCallback : HttpCallback)

/-- The responses to the requests of a log, of which `before` comes first. -/
def responsesFrom (before : List ServerCall) : List ServerCall → List HttpResponse
  | [] => []
  | .httpCallback req :: log =>
    httpCallback before req { closeConnection := wantsClose req } ::
      responsesFrom (before ++ [.httpCallback req]) log
  | .send buf :: log => responsesFrom (before ++ [.send buf]) log
  | .shutdown :: log => responsesFrom (before ++ [.shutdown]) log

/-- The responses that the callback has left. -/
def responsesOf (log : List ServerCall) : List HttpResponse := responsesFrom httpCallback [] log

/-- Every response can be printed, and read back. -/
def Prints : Prop :=
  ∀ log req close, (httpCallback log req { closeConnection := close }).Printable

/-- The responses that have been left can be. -/
def Printed (log : List ServerCall) : Prop := ∀ r ∈ responsesOf httpCallback log, r.Printable

/-- The log of a session, in front of its first `shutdown` and behind it. -/
structure Answered (log : List ServerCall) : Prop where
  going : .shutdown ∉ log → accepted log = (responsesOf httpCallback log).map print ∧
    ∀ r ∈ responsesOf httpCallback log, r.closeConnection = false
  ended : .shutdown ∈ log → ∃ rs : List HttpResponse, (∀ r ∈ rs, r.closeConnection = false) ∧
    ((∃ r, r.closeConnection = true ∧ responsesOf httpCallback (inFront log) = rs ++ [r] ∧
        accepted log = rs.map print ++ [r.print]) ∨
      responsesOf httpCallback (inFront log) = rs ∧ accepted log = rs.map print ++ [badRequest])

variable {httpCallback}

theorem Prints.encodes (h : Prints httpCallback) : Encodes httpCallback :=
  fun log req close => (h log req close).encodable

theorem responsesFrom_append : ∀ (xs before ys : List ServerCall),
    responsesFrom httpCallback before (xs ++ ys) =
      responsesFrom httpCallback before xs ++ responsesFrom httpCallback (before ++ xs) ys
  | [], before, ys => by simp [responsesFrom]
  | x :: xs, before, ys => by
    cases x <;> simp [responsesFrom, responsesFrom_append xs, List.append_assoc]

theorem responsesOf_append (xs ys : List ServerCall) :
    responsesOf httpCallback (xs ++ ys) =
      responsesOf httpCallback xs ++ responsesFrom httpCallback xs ys :=
  responsesFrom_append xs [] ys

/-- Each response belongs to a request. -/
theorem length_responsesFrom : ∀ (log before : List ServerCall),
    (responsesFrom httpCallback before log).length = (requestsOf log).length
  | [], _ => rfl
  | x :: log, before => by
    cases x <;> simp [responsesFrom, requestsOf] <;> exact length_responsesFrom log _

/-- Every response of a log is one that the callback has left. -/
theorem printable_of_mem (h : Prints httpCallback) : ∀ (log before : List ServerCall),
    ∀ r ∈ responsesFrom httpCallback before log, r.Printable
  | [], _, r, hr => absurd hr List.not_mem_nil
  | x :: log, before, r, hr => by
    cases x with
    | send buf => exact printable_of_mem h log _ r hr
    | shutdown => exact printable_of_mem h log _ r hr
    | httpCallback req =>
      rcases List.mem_cons.mp hr with rfl | hr
      · exact h before req (wantsClose req)
      · exact printable_of_mem h log _ r hr

theorem Prints.printed (h : Prints httpCallback) (log : List ServerCall) :
    Printed httpCallback log := printable_of_mem h log []

theorem responsesOf_mono {xs ys : List ServerCall} (h : xs <+: ys) :
    responsesOf httpCallback xs <+: responsesOf httpCallback ys := by
  obtain ⟨zs, rfl⟩ := h
  rw [responsesOf_append]
  exact List.prefix_append _ _

theorem Printed.of_prefix {xs ys : List ServerCall} (h : Printed httpCallback ys)
    (hp : xs <+: ys) : Printed httpCallback xs :=
  fun r hr => h r ((responsesOf_mono hp).subset hr)

/-- The response to the next request is among those that have been left. -/
theorem Printed.request {log : List ServerCall} {req : HttpRequest}
    (h : Printed httpCallback (log ++ requestCalls httpCallback log req)) :
    (httpCallback log req { closeConnection := wantsClose req }).Printable := by
  obtain ⟨after, hcalls, -⟩ := @requestCalls_spec httpCallback log req
  refine h _ ?_
  rw [hcalls, responsesOf_append]
  exact List.mem_append_right _ List.mem_cons_self

/-- The calls of `onRequest`, with the response printed. -/
theorem requestCalls_eq {log : List ServerCall} {req : HttpRequest}
    (h : (httpCallback log req { closeConnection := wantsClose req }).Printable) :
    requestCalls httpCallback log req =
      .httpCallback req ::
        .send (httpCallback log req { closeConnection := wantsClose req }).print ::
        if (httpCallback log req { closeConnection := wantsClose req }).closeConnection
        then [.shutdown] else [] := by
  obtain ⟨q, hq, hreadable⟩ :=
    h.appendToBuffer (ByteQueue.new Buffer.kInitialSize)
  rw [ByteQueue.readable_new, List.nil_append] at hreadable
  have hall : q.retrieveAllAsString.1 = q.readable := by
    have htake := Buffer.retrieveAsString_fst q.wf (Nat.le_refl q.readableBytes)
    rwa [List.take_of_length_le (Buffer.length_readable q.wf).le] at htake
  unfold requestCalls
  simp only [hq, hall, hreadable]

/-! ## The log of a session -/

theorem answered_nil : Answered httpCallback [] :=
  ⟨fun _ => ⟨rfl, fun _ hr => absurd hr List.not_mem_nil⟩, fun h => absurd h List.not_mem_nil⟩

variable {log : List ServerCall}

/-- Behind a `shutdown` a call changes nothing. -/
theorem Answered.append_of_mem (h : Answered httpCallback log) (hmem : .shutdown ∈ log)
    (calls : List ServerCall) : Answered httpCallback (log ++ calls) := by
  refine ⟨fun hnot => absurd (List.mem_append_left _ hmem) hnot, fun _ => ?_⟩
  rw [inFront_append, accepted_append, if_pos hmem, if_pos hmem, List.append_nil, List.append_nil]
  exact h.ended hmem

/-- The reply to a bad request is the last payload. -/
theorem Answered.reject (h : Answered httpCallback log) (hmem : .shutdown ∉ log)
    (calls : List ServerCall) :
    Answered httpCallback (log ++ .send badRequest :: .shutdown :: calls) := by
  obtain ⟨hacc, hkeep⟩ := h.going hmem
  refine ⟨fun hnot => absurd (by simp) hnot, fun _ => ⟨_, hkeep, .inr ⟨?_, ?_⟩⟩⟩
  · rw [inFront_append, if_neg hmem, inFront_of_not_mem hmem, responsesOf_append]
    simp [inFront, responsesFrom]
  · rw [accepted_append, if_neg hmem, hacc]
    rfl

/-- A request that is handled adds its response, which ends the log if it closes the
connection. -/
theorem Answered.request (h : Answered httpCallback log) (hmem : .shutdown ∉ log)
    {req : HttpRequest}
    (hprint : Printed httpCallback (log ++ requestCalls httpCallback log req)) :
    Answered httpCallback (log ++ requestCalls httpCallback log req) := by
  obtain ⟨hacc, hkeep⟩ := h.going hmem
  rw [requestCalls_eq hprint.request]
  generalize hr : httpCallback log req { closeConnection := wantsClose req } = r
  have hone : ∀ calls, responsesFrom httpCallback log (.httpCallback req :: calls) =
      r :: responsesFrom httpCallback (log ++ [.httpCallback req]) calls := by
    intro calls
    rw [responsesFrom, hr]
  cases hclose : r.closeConnection with
  | false =>
    refine ⟨fun _ => ⟨?_, ?_⟩, fun hshut => absurd hshut (by simp [hmem])⟩
    · rw [accepted_append, if_neg hmem, responsesOf_append, hacc, hone]
      simp [accepted, responsesFrom]
    · rw [responsesOf_append, hone]
      intro x hx
      rcases List.mem_append.mp hx with hx | hx
      · exact hkeep x hx
      · obtain rfl : x = r := by simpa [responsesFrom] using hx
        exact hclose
  | true =>
    refine ⟨fun hnot => absurd (by simp) hnot, fun _ => ⟨_, hkeep, .inl ⟨r, hclose, ?_, ?_⟩⟩⟩
    · rw [inFront_append, if_neg hmem, inFront_of_not_mem hmem, responsesOf_append]
      simp [inFront, hone, responsesFrom]
    · rw [accepted_append, if_neg hmem, hacc]
      simp [accepted]

/-- **A delivery keeps the log answered**, whatever it brings. -/
theorem Answered.deliver {s s' : Session} (h : Answered httpCallback s.log) {chunk : Bytes}
    {t : Timestamp} (hd : deliver httpCallback s chunk t = .returns s')
    (hprint : Printed httpCallback s'.log) : Answered httpCallback s'.log := by
  rw [deliver_log hd] at hprint ⊢
  by_cases hmem : ServerCall.shutdown ∈ s.log
  · exact h.append_of_mem hmem _
  · unfold deliverCalls at hprint ⊢
    split at hprint
    · rename_i v hv
      simp only at hprint ⊢
      cases hok : v.ok with
      | true =>
        simp only [hok, if_true, List.append_nil, List.nil_append] at hprint ⊢
        by_cases hgot : v.context.gotAll = true
        · rw [if_pos hgot] at hprint ⊢
          exact h.request hmem hprint
        · rw [if_neg hgot, List.append_nil]
          exact h
      | false =>
        simp only [Bool.false_eq_true, if_false]
        split
        · exact h.reject hmem _
        · exact h.reject hmem []
    · rw [List.append_nil]
      exact h

/-- The log of a run goes on. -/
theorem run_extends : ∀ {chunks : List (Bytes × Timestamp)} {s s' : Session},
    HttpServer.run httpCallback s chunks = .returns s' → s.log <+: s'.log
  | [], s, s', hrun => by
    obtain rfl : s = s' := Outcome.returns.inj hrun
    exact List.prefix_rfl
  | (chunk, t) :: chunks, s, s', hrun => by
    rw [HttpServer.run] at hrun
    cases hd : HttpServer.deliver httpCallback s chunk t with
    | returns s₁ =>
      rw [hd] at hrun
      have hfirst : s.log <+: s₁.log := by
        rw [deliver_log hd]
        exact List.prefix_append _ _
      exact hfirst.trans (run_extends hrun)
    | faults f =>
      rw [hd] at hrun
      cases hrun
    | diverges =>
      rw [hd] at hrun
      cases hrun

theorem Answered.run : ∀ {chunks : List (Bytes × Timestamp)} {s s' : Session},
    Answered httpCallback s.log → HttpServer.run httpCallback s chunks = .returns s' →
      Printed httpCallback s'.log → Answered httpCallback s'.log
  | [], s, s', h, hrun, _ => by
    obtain rfl : s = s' := Outcome.returns.inj hrun
    exact h
  | (chunk, t) :: chunks, s, s', h, hrun, hprint => by
    rw [HttpServer.run] at hrun
    cases hd : HttpServer.deliver httpCallback s chunk t with
    | returns s₁ =>
      rw [hd] at hrun
      exact Answered.run (h.deliver hd (hprint.of_prefix (run_extends hrun))) hrun hprint
    | faults f =>
      rw [hd] at hrun
      cases hrun
    | diverges =>
      rw [hd] at hrun
      cases hrun

end HttpServer

/-! ## The client -/

namespace Received

/-- What a client reads that takes responses by their length for as long as it can, and then one
response up to the end of the stream. -/
def readConnection (xs : Bytes) : List Received :=
  (framing.readAll xs).1 ++ (Received.read (framing.readAll xs).2).toList

/-- A response that closes the connection is not delimited by its length. -/
theorem readByLength_print_close {r : HttpResponse} (h : r.Printable)
    (hclose : r.closeConnection = true) : framing.read r.print = none := by
  have hhead := h.readHead_print []
  rw [List.append_nil, List.append_nil] at hhead
  show readByLength r.print = none
  unfold readByLength
  rw [hhead, Option.bind_some]
  simp [received, hclose]

/-- The reply to a bad request, as a response without headers and without a body. -/
def badReply : HttpResponse where
  statusCode := .k400BadRequest
  statusMessage := ascii "Bad Request"
  closeConnection := true

/-- The reply to a bad request, read. -/
def badRequestReceived : Received where
  version := ascii "HTTP/1.1"
  code := 400
  message := ascii "Bad Request"

theorem readHead_badRequest :
    readHead HttpServer.badRequest = some (badRequestReceived, []) := by
  have hsplit : HttpServer.badRequest =
      writeLines [badReply.statusLine] ++ (Buffer.kCRLF ++ []) := by decide +kernel
  have hline : ∀ l ∈ [badReply.statusLine], NoCRLF l ∧ l ≠ [] := by decide +kernel
  have hblock : headerBlock HttpServer.badRequest = ⟨[badReply.statusLine], some [], []⟩ := by
    rw [hsplit]
    exact HttpContext.headerBlock_writeLines hline []
  unfold readHead
  rw [hblock]
  simp only [readStatusLine_statusLine]
  rfl

/-- The stream of a connection that is kept alive. -/
theorem readAll_prints {rs : List HttpResponse} (hp : ∀ r ∈ rs, r.Printable)
    (hkeep : ∀ r ∈ rs, r.closeConnection = false) (rest : Bytes) :
    framing.readAll (rs.flatMap print ++ rest) =
      (rs.map received ++ (framing.readAll rest).1, (framing.readAll rest).2) :=
  Framing.readAll_written rest fun r hr => (hp r hr).readByLength_print (hkeep r hr)

/-- The stream of a connection whose last response is not delimited. -/
theorem readConnection_prints {rs : List HttpResponse} (hp : ∀ r ∈ rs, r.Printable)
    (hkeep : ∀ r ∈ rs, r.closeConnection = false) {last : Bytes} {d : Received}
    (hlength : framing.read last = none) (hread : Received.read last = some d) :
    readConnection (rs.flatMap print ++ last) = rs.map received ++ [d] := by
  unfold readConnection
  rw [readAll_prints hp hkeep, Framing.readAll_none hlength, List.append_nil, hread]
  rfl

end Received

namespace HttpServer

open Received

variable {httpCallback : HttpCallback} {log : List ServerCall}

/-- The payloads in front of a `shutdown`, read by the client. -/
theorem Answered.readConnection (h : Answered httpCallback log) (hprint : Printed httpCallback log)
    (hmem : .shutdown ∈ log) : ∃ tail : List Received, (tail = [] ∨ tail = [badRequestReceived]) ∧
      Received.readConnection (accepted log).flatten =
        (responsesOf httpCallback (inFront log)).map received ++ tail := by
  have hprinted := hprint.of_prefix (inFront_initial log)
  obtain ⟨rs, hkeep, ⟨r, hclose, hresp, hacc⟩ | ⟨hresp, hacc⟩⟩ := h.ended hmem
  · have hp : ∀ x ∈ rs ++ [r], x.Printable := by
      rw [← hresp]
      exact hprinted
    have hr : r.Printable := hp r (by simp)
    refine ⟨[], .inl rfl, ?_⟩
    rw [hacc, hresp, List.flatten_append, List.flatten_singleton, ← List.flatMap_def,
      readConnection_prints (fun x hx => hp x (List.mem_append_left _ hx)) hkeep
        (readByLength_print_close hr hclose) hr.read_print]
    simp
  · have hp : ∀ x ∈ rs, x.Printable := by
      rw [← hresp]
      exact hprinted
    have hlength : framing.read badRequest = none := by
      show readByLength badRequest = none
      unfold readByLength
      rw [readHead_badRequest]
      rfl
    have hread : Received.read badRequest = some badRequestReceived := by
      unfold Received.read
      rw [readHead_badRequest]
      rfl
    refine ⟨[badRequestReceived], .inr rfl, ?_⟩
    rw [hacc, hresp, List.flatten_append, List.flatten_singleton, ← List.flatMap_def,
      readConnection_prints hp hkeep hlength hread]

end HttpServer

namespace ServedRun

open HttpServer Received

variable {httpCallback : HttpCallback} {s : ServedRun}

theorem answered_of_reachable (h : (machine httpCallback).Reachable s)
    (hprint : Printed httpCallback s.http.log) : Answered httpCallback s.http.log := by
  obtain ⟨⟨s', hrun, -, -, hlog⟩, -⟩ := inv_of_reachable h
  rw [hlog] at hprint ⊢
  exact Answered.run answered_nil hrun hprint

/-- What the client reads, for the responses that there are. -/
theorem reads_of_printed (h : (machine httpCallback).Reachable s)
    (hprint : Printed httpCallback s.http.log) (hdrained : s.http.conn.outputBuffer.readable = [])
    (hopen : s.http.conn.state ≠ .kDisconnected) :
    (.shutdown ∉ s.http.log → framing.readAll s.http.conn.socket.written =
      ((responsesOf httpCallback s.http.log).map received, [])) ∧
    (.shutdown ∈ s.http.log → s.http.conn.socket.writeClosed = true ∧
      ∃ tail : List Received, (tail = [] ∨ tail = [badRequestReceived]) ∧
        readConnection s.http.conn.socket.written =
          (responsesOf httpCallback (inFront s.http.log)).map received ++ tail) := by
  have hanswered := answered_of_reachable h hprint
  obtain ⟨-, hflow⟩ := inv_of_reachable h
  have ho := hflow.resolve_right fun hc => hopen hc.state
  rw [ho.written hdrained]
  refine ⟨fun hmem => ?_, fun hmem => ⟨?_, hanswered.readConnection hprint hmem⟩⟩
  · obtain ⟨hacc, hkeep⟩ := hanswered.going hmem
    have hread := readAll_prints hprint hkeep []
    rw [List.append_nil, Framing.readAll_nil, List.append_nil] at hread
    rw [hacc, ← List.flatMap_def]
    exact hread
  · have hstate := ho.state.resolve_left fun hs => hs.2 hmem
    exact (ho.intact.deferred hstate.1).resolve_right fun hne => hne hdrained

/-- **What the client reads**, whatever has arrived, once the output of a connection that is not
closed has drained: if the server has not shut the connection down, one response for each request
that was handled, delimited by their lengths; otherwise the write side is closed, and up to its end
there is one response for each request handled in front of the `shutdown`, and behind them at most
the reply to a bad request. -/
theorem client_reads_responses (hprint : Prints httpCallback)
    (h : (machine httpCallback).Reachable s) (hdrained : s.http.conn.outputBuffer.readable = [])
    (hopen : s.http.conn.state ≠ .kDisconnected) :
    (.shutdown ∉ s.http.log → framing.readAll s.http.conn.socket.written =
      ((responsesOf httpCallback s.http.log).map received, [])) ∧
    (.shutdown ∈ s.http.log → s.http.conn.socket.writeClosed = true ∧
      ∃ tail : List Received, (tail = [] ∨ tail = [badRequestReceived]) ∧
        readConnection s.http.conn.socket.written =
          (responsesOf httpCallback (inFront s.http.log)).map received ++ tail) :=
  reads_of_printed h (hprint.printed s.http.log) hdrained hopen

theorem okCallback_prints : Prints okCallback := by
  intro log req close
  have hempty : (∅ : HeaderMap).toList = [] := by decide +kernel
  have hmessage : LineText [] := by decide
  exact ⟨hmessage, fun h hh => absurd (hempty ▸ hh) List.not_mem_nil, Nat.two_pow_pos 31⟩

/-- Where the run of one request ends. -/
def pinged : ServedRun := (machine okCallback).after fresh (requestThenDrain pingRequest.render)

theorem pinged_reachable : (machine okCallback).Reachable pinged := by
  refine Machine.Reachable.run (.init (fresh_init okCallback))
    ⟨⟨?_, ⟨rfl, rfl, rfl⟩, exists_returns (by decide +kernel)⟩,
      ⟨?_, ⟨rfl, rfl, rfl⟩, exists_returns (by decide +kernel)⟩, trivial⟩
  · show _ ≠ (none : Option (BitVec 32))
    decide +kernel
  · show _ ≠ (none : Option (BitVec 32))
    decide +kernel

/-- One request on a connection kept alive, whose response is taken in two parts. -/
theorem client_reads_responses_example :
    (responsesOf okCallback pinged.http.log).length = 1 ∧
      framing.readAll pinged.http.conn.socket.written =
        ((responsesOf okCallback pinged.http.log).map received, []) := by
  have hdrained : pinged.http.conn.outputBuffer.readable = [] := by decide +kernel
  have hstate : pinged.http.conn.state ≠ .kDisconnected := by decide +kernel
  have hnot : ServerCall.shutdown ∉ pinged.http.log := by decide +kernel
  refine ⟨?_, (client_reads_responses okCallback_prints pinged_reachable hdrained hstate).1 hnot⟩
  rw [responsesOf, length_responsesFrom]
  decide +kernel

end ServedRun

/-! ## Requests that leave the connection open -/

namespace HttpServer

open HttpContext Received

variable {httpCallback : HttpCallback} {s : Session} {served : List RequestMsg} {pending : Bytes}

/-- The callback does not close a connection that the request leaves open. -/
def LeavesOpen (httpCallback : HttpCallback) : Prop :=
  ∀ log req, (httpCallback log req { closeConnection := false }).closeConnection = false

/-- A delivery that waits makes no call. -/
theorem Progress.deliverCalls_waits (h : Progress s served pending) {chunk : Bytes} (t : Timestamp)
    (hv : ((lineScanner ⟨0⟩).scan {} (pending ++ chunk)).verdict = none) :
    deliverCalls httpCallback s chunk t = [] := by
  have hscan : (lineScanner ⟨0⟩).scan s.context.untimed (s.inputBuffer.readFd chunk).readable =
      (lineScanner ⟨0⟩).scan {} (pending ++ chunk) := by
    rw [ByteQueue.readable_readFd, h.resumes]
  obtain ⟨v, hrun, -, -, -, hgo⟩ := parseRequest_lines h.going _ t hscan
    (by simp [hv]) (inLines_ne (scan_waits_inLines ⟨0⟩ _ _ hv)).1
  rw [hv, Option.isNone_none, Bool.and_eq_true, Bool.not_eq_true'] at hgo
  unfold deliverCalls
  simp only [hrun, hgo.1, hgo.2, if_true, Bool.false_eq_true, if_false]

/-- A delivery that completes the next request makes the calls of `onRequest`. -/
theorem Progress.deliverCalls_serves (h : Progress s served pending) {chunk rest : Bytes}
    (t : Timestamp) {r : RequestMsg} (hbody : r.body = [])
    (hr : pending ++ chunk = r.render ++ rest) :
    ∃ req, req.setReceiveTime ⟨0⟩ = r.parsed ⟨0⟩ ∧
      deliverCalls httpCallback s chunk t = requestCalls httpCallback s.log req := by
  have hscan : (lineScanner ⟨0⟩).scan s.context.untimed (s.inputBuffer.readFd chunk).readable =
      (lineScanner ⟨0⟩).scan {} (r.render ++ rest) := by
    rw [ByteQueue.readable_readFd, h.resumes, hr]
  obtain ⟨v, hrun, hok, hgot, hreq, -⟩ := parseRequest_next h.going _ t hbody hscan
  refine ⟨v.context.request, hreq, ?_⟩
  unfold deliverCalls
  simp only [hrun, hok, hgot, if_true, List.append_nil, List.nil_append]

/-- A request that leaves the connection open is answered without a `shutdown`. -/
theorem shutdown_not_mem_requestCalls (hprint : Prints httpCallback)
    (hopen : LeavesOpen httpCallback) (log : List ServerCall) {req : HttpRequest}
    (hreq : wantsClose req = false) : .shutdown ∉ requestCalls httpCallback log req := by
  rw [requestCalls_eq (hprint log req (wantsClose req)), hreq, hopen]
  simp

/-- **Requests that leave the connection open are never answered with a `shutdown`.** -/
theorem run_noShutdown (hprint : Prints httpCallback) (hopen : LeavesOpen httpCallback) :
    ∀ {chunks : List (Bytes × Timestamp)} {s s' : Session} {served rs : List RequestMsg}
      {pending : Bytes}, Progress s served pending →
      (∀ r ∈ rs, r.body = [] ∧ wantsClose (r.parsed ⟨0⟩) = false) →
      pending ++ bytesOf chunks = (rs.map RequestMsg.render).flatten → .shutdown ∉ s.log →
      run httpCallback s chunks = .returns s' → .shutdown ∉ s'.log
  | [], s, s', served, rs, pending, _, _, _, hnot, hrun => by
    obtain rfl : s = s' := Outcome.returns.inj hrun
    exact hnot
  | (chunk, t) :: chunks, s, s', served, rs, pending, h, hrs, hbytes, hnot, hrun => by
    rw [bytesOf_cons, ← List.append_assoc] at hbytes
    -- the delivery waits, or it completes the first request
    have hstep : (∃ s₁, deliver httpCallback s chunk t = .returns s₁ ∧
        Progress s₁ served (pending ++ chunk) ∧ deliverCalls httpCallback s chunk t = []) ∨
        ∃ r rest s₁ req, r ∈ rs ∧ deliver httpCallback s chunk t = .returns s₁ ∧
          Progress s₁ (served ++ [r]) rest ∧ req.setReceiveTime ⟨0⟩ = r.parsed ⟨0⟩ ∧
          deliverCalls httpCallback s chunk t = requestCalls httpCallback s.log req ∧
          rest ++ bytesOf chunks = ((rs.drop 1).map RequestMsg.render).flatten := by
      cases rs with
      | nil =>
        obtain ⟨hpc, -⟩ := List.append_eq_nil_iff.mp hbytes
        have hv : ((lineScanner ⟨0⟩).scan {} (pending ++ chunk)).verdict = none := by
          rw [hpc, scan_nil]
        obtain ⟨s₁, hd, h₁⟩ := deliver_waits httpCallback h chunk t hv
        exact .inl ⟨s₁, hd, h₁, h.deliverCalls_waits t hv⟩
      | cons r rs =>
        rw [List.map_cons, List.flatten_cons] at hbytes
        have hbody := (hrs r List.mem_cons_self).1
        have hpre : pending ++ chunk <+: r.render ++ (rs.map RequestMsg.render).flatten :=
          ⟨_, hbytes⟩
        by_cases hlen : r.render.length ≤ (pending ++ chunk).length
        · obtain ⟨rest, hrest⟩ :=
            List.prefix_of_prefix_length_le (List.prefix_append r.render _) hpre hlen
          obtain ⟨s₁, hd, h₁⟩ := deliver_serves hprint.encodes h chunk t hbody hrest.symm
          obtain ⟨req, hreq, hcalls⟩ := h.deliverCalls_serves t hbody hrest.symm
          rw [← hrest, List.append_assoc, List.append_cancel_left_eq] at hbytes
          exact .inr ⟨r, rest, s₁, req, List.mem_cons_self, hd, h₁, hreq, hcalls, hbytes⟩
        · have hhead : r.render = r.head := by
            rw [RequestMsg.render, hbody, List.append_nil]
          have hv := scan_waits_of_short r (hhead ▸ hpre) (hhead ▸ Nat.lt_of_not_le hlen)
          obtain ⟨s₁, hd, h₁⟩ := deliver_waits httpCallback h chunk t hv
          exact .inl ⟨s₁, hd, h₁, h.deliverCalls_waits t hv⟩
    rcases hstep with ⟨s₁, hd, h₁, hcalls⟩ | ⟨r, rest, s₁, req, hr, hd, h₁, hreq, hcalls, hrest⟩
    · rw [run, hd] at hrun
      have hnot₁ : .shutdown ∉ s₁.log := by
        rw [deliver_log hd, hcalls, List.append_nil]
        exact hnot
      exact run_noShutdown hprint hopen h₁ hrs hbytes hnot₁ hrun
    · rw [run, hd] at hrun
      have hwants : wantsClose req = false := by
        have hsame : wantsClose (req.setReceiveTime ⟨0⟩) = wantsClose req := rfl
        rw [← hsame, hreq]
        exact (hrs r hr).2
      have hnot₁ : .shutdown ∉ s₁.log := by
        rw [deliver_log hd, hcalls, List.mem_append, not_or]
        exact ⟨hnot, shutdown_not_mem_requestCalls hprint hopen s.log hwants⟩
      exact run_noShutdown hprint hopen h₁
        (fun x hx => hrs x (List.mem_of_mem_drop hx)) hrest hnot₁ hrun

end HttpServer

namespace ServedRun

open HttpServer Received

variable {httpCallback : HttpCallback} {s : ServedRun}

/-- **Request in, response out.** A client has sent the requests `rs`, which have no bodies and
leave the connection open, and what the server had to send has drained. Then the server has handled
some first ones of them, and all of them exactly if the deliveries keep up; and the client reads,
with nothing left over, one response for each request that was handled. -/
theorem pipelined_client_reads (hprint : Prints httpCallback) (hopen : LeavesOpen httpCallback)
    (h : (machine httpCallback).Reachable s) {rs : List RequestMsg}
    (hrs : ∀ r ∈ rs, r.body = [] ∧ wantsClose (r.parsed ⟨0⟩) = false)
    (hbytes : HttpContext.bytesOf s.reads = (rs.map RequestMsg.render).flatten)
    (hdrained : s.http.conn.outputBuffer.readable = [])
    (hstate : s.http.conn.state ≠ .kDisconnected) :
    ∃ k ≤ rs.length, (k = rs.length ↔ KeepsUp rs s.reads) ∧
      requestsOf s.http.log = (rs.take k).map (fun r => r.parsed ⟨0⟩) ∧
      (responsesOf httpCallback s.http.log).length = k ∧
      framing.readAll s.http.conn.socket.written =
        ((responsesOf httpCallback s.http.log).map received, []) := by
  obtain ⟨⟨s', hrun, -, -, hlog⟩, hflow⟩ := inv_of_reachable h
  obtain ⟨s'', k, hrun', hk, hprogress, hiff⟩ := run_progress hprint.encodes s.reads progress_init
    (fun r hr => (hrs r hr).1) hbytes
  obtain rfl : s'' = s' := Outcome.returns.inj (hrun'.symm.trans hrun)
  have hhandled : requestsOf s.http.log = (rs.take k).map fun r => r.parsed ⟨0⟩ := by
    rw [hlog]
    exact hprogress.handled
  have hnot : .shutdown ∉ s.http.log := by
    rw [hlog]
    exact run_noShutdown hprint hopen progress_init hrs hbytes List.not_mem_nil hrun
  have hlength : (responsesOf httpCallback s.http.log).length = k := by
    rw [responsesOf, length_responsesFrom, hhandled, List.length_map, List.length_take]
    exact Nat.min_eq_left hk
  refine ⟨k, hk, ?_, hhandled, hlength, ?_⟩
  · rw [keepsUp_iff]
    refine Iff.trans ⟨fun he => he.ge, fun hle => Nat.le_antisymm hk hle⟩ ?_
    exact hiff
  · exact (reads_of_printed h (hprint.printed s.http.log) hdrained hstate).1 hnot

theorem pipelined_client_reads_example :
    ∃ k ≤ 1, (k = 1 ↔ KeepsUp [pingRequest] pinged.reads) ∧
      requestsOf pinged.http.log = ([pingRequest].take k).map (fun r => r.parsed ⟨0⟩) ∧
      (responsesOf okCallback pinged.http.log).length = k ∧
      framing.readAll pinged.http.conn.socket.written =
        ((responsesOf okCallback pinged.http.log).map received, []) := by
  have hrs : ∀ r ∈ [pingRequest], r.body = [] ∧ wantsClose (r.parsed ⟨0⟩) = false := by
    decide +kernel
  have hbytes : HttpContext.bytesOf pinged.reads =
      ([pingRequest].map RequestMsg.render).flatten := by
    decide +kernel
  exact pipelined_client_reads okCallback_prints (fun _ _ => rfl) pinged_reachable hrs hbytes
    (by decide +kernel) (by decide +kernel)

end ServedRun

end SimpleHttpServer
