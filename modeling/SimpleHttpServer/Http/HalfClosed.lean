import SimpleHttpServer.Http.ContentLength
import SimpleHttpServer.Http.Termination

/-!
# Requests behind a shutdown

`shutdown()` closes the write side. The read side stays open until the peer closes it, and
`onMessage` does not ask whether the connection is being closed: it parses what arrives, and hands
every request it completes to `httpCallback_`.

* `trace` are the calls of a run, also of one that a fault ends;
* `CompletesRequest` is the grammar of what makes `onMessage` hand on a request
  (`gotAll_iff_completes`);
* **`quiet_trace_iff`**: no request is executed behind a shutdown if and only if no delivery behind
  one completes a request;
* `not_quiet_example`: a request that closes the connection, and the next one.
-/

namespace SimpleHttpServer

open Lib Lib.Search Lib.Lines

namespace HttpContext

/-! ## Completing a request -/

/-- The lines `xs` at the end of the buffer `q` complete a request that has been read into `req`:
the header block ends, and the body of a POST can be copied. -/
def EndsRequest (req : HttpRequest) (q : ByteQueue) (xs : Bytes) : Prop :=
  (colonBlock xs).last ≠ none ∧
    (req.method = .kPost → ∃ n : Nat,
      stoi ((req.storeLines (colonBlock xs).lines).getHeader (ascii "Content-Length")) = .ok n ∧
        (behindBlock q xs).peek + n ≤ q.buffer.length)

/-- The unread bytes complete a request: the rest of its header lines, or all of it, if
`setMethod` still can be called. -/
def CompletesRequest (c : HttpContext) (q : ByteQueue) : Prop :=
  c.state = .kExpectHeaders ∧ EndsRequest c.request q q.readable ∨
  c.state = .kExpectRequestLine ∧ c.request.method = .kInvalid ∧
    ∃ line xs m target v, q.readable = line ++ (Buffer.kCRLF ++ xs) ∧ NoCRLF line ∧
      RequestLineOf line m target v ∧ EndsRequest { c.request with method := m } q xs

/-- Of the request, only the method and the headers matter. -/
theorem EndsRequest.congr {req req' : HttpRequest} {q : ByteQueue} {xs : Bytes}
    (h : EndsRequest req q xs) (hm : req'.method = req.method)
    (hh : req'.headers = req.headers) : EndsRequest req' q xs := by
  have hheaders := storeLines_headers (colonBlock xs).lines hh
  unfold EndsRequest HttpRequest.getHeader at h ⊢
  rwa [hm, hheaders]

/-- Behind the lines the call has got all exactly if they end the request. -/
theorem finish_gotAll_iff (t : Timestamp) (req : HttpRequest) (q : ByteQueue) (xs : Bytes) :
    (∃ w, finish t (scannedBlock req (colonBlock xs)) (behindBlock q xs) = .returns w ∧
      w.context.gotAll = true) ↔ EndsRequest req q xs := by
  unfold EndsRequest scannedBlock
  cases hlast : (colonBlock xs).last with
  | none =>
    refine iff_of_false ?_ fun h => h.1 rfl
    rintro ⟨w, hw, hgot⟩
    cases hw
    cases hgot
  | some last =>
    by_cases hp : req.method = .kPost
    · have hiff := parseIter_body_iff t
        (c := ⟨.kExpectBody, req.storeLines (colonBlock xs).lines⟩) rfl (behindBlock q xs)
      rw [show (behindBlock q xs).buffer = q.buffer from q.buffer_consume _] at hiff
      simp only [finish, afterHeaders, hp, if_true, ne_eq, reduceCtorEq, not_false_eq_true,
        true_and, forall_const]
      rw [← hiff]
      cases hi : parseIter t
          { context := ⟨.kExpectBody, req.storeLines (colonBlock xs).lines⟩
            buf := behindBlock q xs } with
      | error f => exact iff_of_false (by rintro ⟨w, hw, -⟩; cases hw) (by rintro ⟨w, hw⟩; cases hw)
      | ok w => exact iff_of_true ⟨w, rfl, (parseIter_body_ok rfl hi).1⟩ ⟨w, rfl⟩
    · simp only [finish, afterHeaders, hp, if_false, reduceCtorEq, ne_eq, not_false_eq_true,
        false_implies, and_true, iff_true]
      exact ⟨_, rfl, rfl⟩

/-- A call that has got all has accepted its lines. -/
theorem verdict_of_gotAll {c : HttpContext} (hc : c.inLines = true) {q : ByteQueue} {t : Timestamp}
    {w : ParseVars} (h : parseRequest c q t = .returns w) (hgot : w.context.gotAll = true) :
    ((lineScanner t).scan c q.readable).verdict = some (.ok true) := by
  obtain ⟨buf, -, hrun⟩ := parseRequest_eq (inLines_ne hc).2 q t
  rw [h] at hrun
  have hstate : w.context.state = .kGotAll := by simpa [gotAll] using hgot
  rcases hv : ((lineScanner t).scan c q.readable).verdict with _ | f | _ | _
  · simp only [finish, hv] at hrun
    obtain rfl := Outcome.returns.inj hrun
    exact absurd hstate (inLines_ne (scan_waits_inLines t c q.readable hv)).2
  · simp only [finish, hv] at hrun
    cases hrun
  · simp only [finish, hv] at hrun
    obtain rfl := Outcome.returns.inj hrun
    obtain ⟨hs, -, n, -, hline⟩ := scan_rejects t c q.readable hv
    have hstate' := processRequestLine_state hline
    rw [hs] at hstate'
    exact absurd (hstate'.symm.trans hstate) (by decide)
  · rfl

/-- In the header state. -/
theorem gotAll_headers (t : Timestamp) (req : HttpRequest) (q : ByteQueue) :
    (∃ w, parseRequest ⟨.kExpectHeaders, req⟩ q t = .returns w ∧ w.context.gotAll = true) ↔
      EndsRequest req q q.readable := by
  have hrun := parseRequest_consume (c := ⟨.kExpectHeaders, req⟩) nofun q t
    (scan_headers t q.readable req)
  rw [scannedBlock_rest] at hrun
  rw [hrun]
  exact finish_gotAll_iff t req q q.readable

/-- Before the request line, when the line in front of the first CRLF is accepted. -/
theorem gotAll_accepted (t : Timestamp) {c c' : HttpContext} (hs : c.state = .kExpectRequestLine)
    {q : ByteQueue} {line xs : Bytes} (hq : q.readable = line ++ (Buffer.kCRLF ++ xs))
    (hl : NoCRLF line) (hp : c.processRequestLine line = .ok (true, c')) :
    (∃ w, parseRequest c q t = .returns w ∧ w.context.gotAll = true) ↔
      EndsRequest c'.request q xs := by
  have hscan : (lineScanner t).scan c q.readable =
      scannedBlock (c'.request.setReceiveTime t) (colonBlock xs) := by
    rw [hq, scan_accepted t hs hl hp, scan_headers]
  have hrun := parseRequest_consume (by rw [hs]; decide) q t hscan
  rw [scannedBlock_rest] at hrun
  rw [hrun, show q.consume (q.readableBytes - (colonBlock xs).rest.length) = behindBlock q xs from
    rfl, finish_gotAll_iff]
  exact ⟨fun h => h.congr rfl rfl, fun h => h.congr rfl rfl⟩

/-- **What `onMessage` hands on**: a call has got all exactly if the unread bytes complete a
request. -/
theorem gotAll_iff_completes {c : HttpContext} (hc : c.inLines = true) (q : ByteQueue)
    (t : Timestamp) :
    (∃ w, parseRequest c q t = .returns w ∧ w.context.gotAll = true) ↔ CompletesRequest c q := by
  rcases inLines_cases hc with hs | hs
  · constructor
    · rintro ⟨w, hw, hgot⟩
      have hv := verdict_of_gotAll hc hw hgot
      cases hn : search Buffer.kCRLF q.readable with
      | none =>
        have hm : lineMove t c q.readable = .wait := by simp [lineMove, hc, hn]
        rw [Scanner.scan_wait hm] at hv
        cases hv
      | some n =>
        obtain ⟨rest, hsplit, -⟩ := search_spec hn
        have hl : NoCRLF (q.readable.take n) := not_infix_take (by decide) hn
        have hq : q.readable = q.readable.take n ++ (Buffer.kCRLF ++ rest) := by
          rw [← List.append_assoc]
          exact hsplit
        have hm : lineMove t c q.readable = onLine t c (q.readable.take n) := by
          simp [lineMove, hc, hn]
        simp only [onLine, hs, if_true] at hm
        cases hp : c.processRequestLine (q.readable.take n) with
        | error f =>
          rw [hp] at hm
          rw [Scanner.scan_halt hm] at hv
          cases hv
        | ok r =>
          obtain ⟨accepted, c'⟩ := r
          rw [hp] at hm
          cases accepted with
          | false =>
            rw [Scanner.scan_halt hm] at hv
            cases hv
          | true =>
            obtain ⟨hinvalid, hheaders, target, v, hline⟩ := accepted_spec hp
            have hends := (gotAll_accepted t hs hq hl hp).mp ⟨w, hw, hgot⟩
            exact Or.inr ⟨hs, hinvalid, _, rest, _, target, v, hq, hl, hline,
              hends.congr rfl hheaders.symm⟩
    · rintro (⟨hs', -⟩ | ⟨-, hinvalid, line, xs, m, target, v, hq, hl, hline, hends⟩)
      · rw [hs] at hs'
        cases hs'
      · obtain ⟨c', hp⟩ : ∃ c', c.processRequestLine line = .ok (true, c') :=
          ⟨_, by rw [processRequestLine_of_line hinvalid hline,
            RequestMsg.processVersion_versionString _ hline.version_known]⟩
        obtain ⟨-, hheaders, target', v', hline'⟩ := accepted_spec hp
        refine (gotAll_accepted t hs hq hl hp).mpr ?_
        exact hends.congr (hline'.method_unique hline) hheaders
  · obtain ⟨state, req⟩ := c
    obtain rfl : state = .kExpectHeaders := hs
    rw [gotAll_headers]
    constructor
    · exact fun h => Or.inl ⟨rfl, h⟩
    · rintro (⟨-, h⟩ | ⟨hs', -⟩)
      · exact h
      · cases hs'

/-- A call that has got all returns `true`. -/
theorem ok_of_gotAll {c : HttpContext} (hc : c.inLines = true) {q : ByteQueue} {t : Timestamp}
    {w : ParseVars} (h : parseRequest c q t = .returns w) (hgot : w.context.gotAll = true) :
    w.ok = true := by
  obtain ⟨buf, -, hrun⟩ := parseRequest_eq (inLines_ne hc).2 q t
  rw [h, finish] at hrun
  simp only [verdict_of_gotAll hc h hgot] at hrun
  split at hrun
  · rename_i hb
    cases hi : parseIter t { context := ((lineScanner t).scan c q.readable).state, buf } with
    | error f =>
      rw [hi] at hrun
      cases hrun
    | ok v =>
      rw [hi] at hrun
      obtain rfl := Outcome.returns.inj hrun
      exact (parseIter_body_ok hb hi).2
  · obtain rfl := Outcome.returns.inj hrun
    rfl

end HttpContext

namespace HttpServer

open HttpContext

/-! ## The calls of a run -/

section

variable (httpCallback : HttpCallback)

/-- The calls of `onRequest`, also of one that faults. -/
def requestCalls (log : List ServerCall) (req : HttpRequest) : List ServerCall :=
  let response := httpCallback log req { closeConnection := wantsClose req }
  match response.appendToBuffer (ByteQueue.new Buffer.kInitialSize) with
  | .error _ => [.httpCallback req]
  | .ok buf =>
    .httpCallback req :: .send buf.retrieveAllAsString.1 ::
      if response.closeConnection then [.shutdown] else []

/-- The calls of a delivery, also of one that faults. -/
def deliverCalls (s : Session) (chunk : Bytes) (t : Timestamp) : List ServerCall :=
  match s.context.parseRequest (s.inputBuffer.readFd chunk) t with
  | .returns v =>
    let rejects := if v.ok then [] else [.send badRequest, .shutdown]
    if v.context.gotAll then
      rejects ++ requestCalls httpCallback (s.log ++ rejects) v.context.request
    else rejects
  | _ => []

/-- The calls of a run, up to its end or its fault. -/
def trace (s : Session) : List (Bytes × Timestamp) → List ServerCall
  | [] => s.log
  | (chunk, t) :: chunks =>
    match deliver httpCallback s chunk t with
    | .returns s' => trace s' chunks
    | _ => s.log ++ deliverCalls httpCallback s chunk t

/-- No request is executed behind a shutdown. -/
def Quiet (calls : List ServerCall) : Prop :=
  calls.Pairwise fun a b => a = .shutdown → ∀ req, b ≠ .httpCallback req

/-- No delivery behind a shutdown completes a request. -/
def CompletesNothing (s : Session) (chunks : List (Bytes × Timestamp)) : Prop :=
  ∀ (k : Nat) (hk : k < chunks.length) (s' : Session),
    run httpCallback s (chunks.take k) = .returns s' → .shutdown ∈ s'.log →
      ¬ CompletesRequest s'.context (s'.inputBuffer.readFd chunks[k].1)

end

variable {httpCallback : HttpCallback}

/-- What `onRequest` adds to the log. -/
theorem onRequest_log {s s' : Session} {req : HttpRequest}
    (h : onRequest httpCallback s req = .ok s') :
    s'.log = s.log ++ requestCalls httpCallback s.log req := by
  cases hbuf : (httpCallback s.log req { closeConnection := wantsClose req }).appendToBuffer
      (ByteQueue.new Buffer.kInitialSize) with
  | error f =>
    unfold onRequest at h
    simp only [hbuf] at h
    cases h
  | ok buf =>
    unfold onRequest at h
    unfold requestCalls
    simp only [hbuf] at h ⊢
    by_cases hclose :
        (httpCallback s.log req { closeConnection := wantsClose req }).closeConnection = true
    · rw [if_pos hclose] at h ⊢
      obtain rfl := Except.ok.inj h
      simp only [Session.call, List.append_assoc, List.cons_append, List.nil_append]
    · rw [if_neg hclose] at h ⊢
      obtain rfl := Except.ok.inj h
      simp only [Session.call, List.append_assoc, List.cons_append, List.nil_append]

/-- A delivery that returns has made its calls. -/
theorem deliver_log {s s' : Session} {chunk : Bytes} {t : Timestamp}
    (h : deliver httpCallback s chunk t = .returns s') :
    s'.log = s.log ++ deliverCalls httpCallback s chunk t := by
  unfold deliver onMessage at h
  unfold deliverCalls
  simp only at h ⊢
  split at h
  · cases h
  · cases h
  · rename_i v hv
    simp only [hv]
    by_cases hok : v.ok = true
    · simp only [hok, if_true] at h ⊢
      split at h
      · rename_i hgot
        split at h
        · cases h
        · rename_i s'' hreq
          obtain rfl := Outcome.returns.inj h
          have hlog := onRequest_log hreq
          simp only [hgot, if_true, List.append_nil, List.nil_append]
          exact hlog
      · rename_i hgot
        obtain rfl := Outcome.returns.inj h
        simp [hgot]
    · simp only [hok, if_false, Bool.false_eq_true] at h ⊢
      split at h
      · rename_i hgot
        split at h
        · cases h
        · rename_i s'' hreq
          obtain rfl := Outcome.returns.inj h
          have hlog := onRequest_log hreq
          simp only [Session.call, List.append_assoc] at hlog hgot
          simp only [hgot, if_true]
          exact hlog
      · rename_i hgot
        obtain rfl := Outcome.returns.inj h
        simp only [Session.call] at hgot
        simp [hgot, Session.call]

/-! ## Behind a shutdown -/

theorem requestCalls_spec (log : List ServerCall) (req : HttpRequest) :
    ∃ after, requestCalls httpCallback log req = .httpCallback req :: after ∧
      ∀ r, .httpCallback r ∉ after := by
  unfold requestCalls
  simp only
  split
  · exact ⟨[], rfl, fun r => List.not_mem_nil⟩
  · refine ⟨_, rfl, fun r => ?_⟩
    split <;> simp

/-- A delivery executes one request, or none, by whether it completes one. -/
theorem deliverCalls_spec (httpCallback : HttpCallback) {s : Session}
    (hc : s.context.inLines = true) (chunk : Bytes) (t : Timestamp) :
    CompletesRequest s.context (s.inputBuffer.readFd chunk) ∧
        (∃ req after, deliverCalls httpCallback s chunk t = .httpCallback req :: after ∧
          ∀ r, .httpCallback r ∉ after) ∨
      ¬ CompletesRequest s.context (s.inputBuffer.readFd chunk) ∧
        ∀ r, .httpCallback r ∉ deliverCalls httpCallback s chunk t := by
  have hiff := gotAll_iff_completes hc (s.inputBuffer.readFd chunk) t
  unfold deliverCalls
  cases hrun : s.context.parseRequest (s.inputBuffer.readFd chunk) t with
  | faults f =>
    refine Or.inr ⟨fun h => ?_, fun r => List.not_mem_nil⟩
    obtain ⟨w, hw, -⟩ := hiff.mpr h
    rw [hrun] at hw
    cases hw
  | diverges =>
    refine Or.inr ⟨fun h => ?_, fun r => List.not_mem_nil⟩
    obtain ⟨w, hw, -⟩ := hiff.mpr h
    rw [hrun] at hw
    cases hw
  | returns v =>
    by_cases hgot : v.context.gotAll = true
    · refine Or.inl ⟨hiff.mp ⟨v, hrun, hgot⟩, v.context.request, ?_⟩
      simp only [ok_of_gotAll hc hrun hgot, hgot, if_true, List.nil_append]
      exact requestCalls_spec _ _
    · refine Or.inr ⟨fun h => ?_, fun r => ?_⟩
      · obtain ⟨w, hw, hgot'⟩ := hiff.mpr h
        rw [hrun] at hw
        obtain rfl := Outcome.returns.inj hw
        exact hgot hgot'
      · simp only [hgot, if_false, Bool.false_eq_true]
        split <;> simp

/-- What a delivery adds stays quiet exactly if it does not complete a request behind a
shutdown. -/
theorem quiet_append_iff (httpCallback : HttpCallback) {s : Session}
    (hc : s.context.inLines = true) (hq : Quiet s.log) (chunk : Bytes) (t : Timestamp) :
    Quiet (s.log ++ deliverCalls httpCallback s chunk t) ↔
      (.shutdown ∈ s.log → ¬ CompletesRequest s.context (s.inputBuffer.readFd chunk)) := by
  unfold Quiet
  rw [List.pairwise_append]
  rcases deliverCalls_spec httpCallback hc chunk t with
    ⟨hcomp, req, after, heq, hafter⟩ | ⟨hcomp, hnone⟩
  · rw [heq]
    constructor
    · rintro ⟨-, -, hcross⟩ hshut -
      exact hcross _ hshut _ List.mem_cons_self rfl req rfl
    · intro h
      refine ⟨hq, List.pairwise_cons.mpr ⟨fun b _ e => (by cases e), ?_⟩, ?_⟩
      · exact List.pairwise_of_forall_mem_list fun a _ b hb _ r e => hafter r (e ▸ hb)
      · rintro a ha b hb rfl
        exact absurd hcomp (h ha)
  · refine iff_of_true ⟨hq, ?_, ?_⟩ fun _ => hcomp
    · exact List.pairwise_of_forall_mem_list fun a _ b hb _ r e => hnone r (e ▸ hb)
    · exact fun a _ b hb _ r e => hnone r (e ▸ hb)

/-- A run goes on behind the calls of its first delivery. -/
theorem trace_extends : ∀ (chunks : List (Bytes × Timestamp)) (s : Session),
    s.log <+: trace httpCallback s chunks
  | [], s => List.prefix_refl _
  | (chunk, t) :: chunks, s => by
    rw [trace]
    split
    · rename_i s' hd
      refine List.IsPrefix.trans ?_ (trace_extends chunks s')
      rw [deliver_log hd]
      exact List.prefix_append _ _
    · exact List.prefix_append _ _

/-- A run from a session whose log is quiet. -/
theorem quiet_trace : ∀ (chunks : List (Bytes × Timestamp)) {s : Session},
    s.context.inLines = true → Quiet s.log →
      (Quiet (trace httpCallback s chunks) ↔ CompletesNothing httpCallback s chunks)
  | [], s, _, hq => iff_of_true hq fun k hk => absurd hk (Nat.not_lt_zero k)
  | (chunk, t) :: chunks, s, hc, hq => by
    have hfirst := quiet_append_iff httpCallback hc hq chunk t
    have hhead : Quiet (trace httpCallback s ((chunk, t) :: chunks)) →
        Quiet (s.log ++ deliverCalls httpCallback s chunk t) := by
      intro h
      rw [trace] at h
      split at h
      · rename_i s' hd
        rw [← deliver_log hd]
        exact h.sublist (trace_extends chunks s').sublist
      · exact h
    constructor
    · intro h k hk s' hrun hshut
      cases k with
      | zero =>
        obtain rfl : s = s' := Outcome.returns.inj hrun
        exact hfirst.mp (hhead h) hshut
      | succ k =>
        rw [List.take_succ_cons, run] at hrun
        cases hd : deliver httpCallback s chunk t with
        | returns s₁ =>
          rw [hd] at hrun
          have hq₁ : Quiet s₁.log := by
            rw [deliver_log hd]
            exact hhead h
          rw [trace, hd] at h
          have hc₁ := (deliver_inLines httpCallback hc chunk t).2 s₁ hd
          exact (quiet_trace chunks hc₁ hq₁).mp h k (Nat.lt_of_succ_lt_succ hk) s' hrun hshut
        | faults f =>
          rw [hd] at hrun
          cases hrun
        | diverges =>
          rw [hd] at hrun
          cases hrun
    · intro h
      have hq' : Quiet (s.log ++ deliverCalls httpCallback s chunk t) :=
        hfirst.mpr (h 0 (Nat.succ_pos _) s rfl)
      rw [trace]
      split
      · rename_i s₁ hd
        have hc₁ := (deliver_inLines httpCallback hc chunk t).2 s₁ hd
        refine (quiet_trace chunks hc₁ (by rw [deliver_log hd]; exact hq')).mpr ?_
        intro k hk s' hrun hshut
        refine h (k + 1) (Nat.succ_lt_succ hk) s' ?_ hshut
        rw [List.take_succ_cons, run, hd]
        exact hrun
      · exact hq'

/-- **No request is executed behind a shutdown if and only if no delivery behind one completes a
request.** -/
theorem quiet_trace_iff (httpCallback : HttpCallback) (chunks : List (Bytes × Timestamp)) :
    Quiet (trace httpCallback {} chunks) ↔ CompletesNothing httpCallback {} chunks :=
  quiet_trace chunks rfl List.Pairwise.nil

/-- Two requests, each in a chunk of its own. -/
def twoRequests : List (Bytes × Timestamp) :=
  [(ascii "GET /a HTTP/1.1\r\n\r\n", ⟨1⟩), (ascii "GET /b HTTP/1.1\r\n\r\n", ⟨2⟩)]

/-- The first one is answered with a shutdown; the second one is executed all the same. -/
theorem not_quiet_example : ¬ ∀ (httpCallback : HttpCallback) (chunks : List (Bytes × Timestamp)),
    Quiet (trace httpCallback {} chunks) := by
  intro h
  have hquiet := h defaultHttpCallback twoRequests
  have hshut : .shutdown ∈ (trace defaultHttpCallback {} twoRequests).take 3 := by decide +kernel
  obtain ⟨req, hcall⟩ :
      ∃ req, .httpCallback req ∈ (trace defaultHttpCallback {} twoRequests).drop 3 := by
    refine ⟨⟨.kGet, .kHttp11, ascii "/b", [], [], ⟨2⟩, ∅⟩, ?_⟩
    decide +kernel
  rw [Quiet, ← List.take_append_drop 3 (trace _ _ _)] at hquiet
  exact (List.pairwise_append.mp hquiet).2.2 _ hshut _ hcall rfl req rfl

end HttpServer

end SimpleHttpServer
