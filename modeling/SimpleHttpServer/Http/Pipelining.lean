import SimpleHttpServer.Http.HttpServer

/-!
# Pipelined requests

`onMessage` handles at most one request per call: it tests `gotAll()` once and leaves the bytes
behind the request in the input buffer until more arrive.

* `Progress` is the invariant of a run over well-formed requests without bodies: the parser has
  seen the bytes `pending` since the end of the last request it handled;
* `deliver_serves`, `deliver_waits`: a delivery handles the next request if it is complete, and
  waits otherwise;
* **`allServed_iff`**: every request is handled if and only if at no point more requests are
  incomplete than deliveries are to come.
-/

namespace SimpleHttpServer

open Lib HttpContext

namespace HttpServer

variable {httpCallback : HttpCallback}

/-- The requests `httpCallback` has been called with, but for their `receiveTime`. -/
def requestsOf (log : List ServerCall) : List HttpRequest :=
  log.filterMap fun
    | .httpCallback req => some (req.setReceiveTime ⟨0⟩)
    | _ => none

/-- After the run, the callback has been called once for each request, in order, and the input
buffer is empty. -/
def AllServed (httpCallback : HttpCallback) (rs : List RequestMsg)
    (chunks : List (Bytes × Timestamp)) : Prop :=
  ∃ s, run httpCallback {} chunks = .returns s ∧
    requestsOf s.log = rs.map (fun r => r.parsed ⟨0⟩) ∧ s.inputBuffer.readable = []

/-- How many of the first messages are complete in the first `n` bytes. -/
def complete : List Bytes → Nat → Nat
  | [], _ => 0
  | x :: xs, n => if x.length ≤ n then complete xs (n - x.length) + 1 else 0

/-- At no chunk boundary are more requests incomplete than chunks are to come. -/
def KeepsUp (rs : List RequestMsg) (chunks : List (Bytes × Timestamp)) : Prop :=
  ∀ i ≤ chunks.length, rs.length ≤
    complete (rs.map RequestMsg.render) (bytesOf (chunks.take i)).length + (chunks.length - i)

/-! ## The invariant -/

/-- `served` requests have been handled, and the parser has seen `pending` since: it goes on as a
fresh parser over `pending` would. -/
structure Progress (s : Session) (served : List RequestMsg) (pending : Bytes) : Prop where
  going : s.context.state ≠ .kGotAll
  resumes : ∀ ys, (lineScanner ⟨0⟩).scan s.context.untimed (s.inputBuffer.readable ++ ys) =
    (lineScanner ⟨0⟩).scan {} (pending ++ ys)
  unread : s.inputBuffer.readable <:+ pending
  handled : requestsOf s.log = served.map fun r => r.parsed ⟨0⟩

theorem progress_init : Progress {} [] [] :=
  ⟨by decide, fun ys => by rw [ByteQueue.readable_new]; rfl, by simp, rfl⟩

/-- A delivery that does not complete the head of the next request waits. -/
theorem deliver_waits (httpCallback : HttpCallback) {s : Session} {served : List RequestMsg}
    {pending : Bytes}
    (h : Progress s served pending) (chunk : Bytes) (t : Timestamp)
    (hv : ((lineScanner ⟨0⟩).scan {} (pending ++ chunk)).verdict = none) :
    ∃ s', deliver httpCallback s chunk t = .returns s' ∧
      Progress s' served (pending ++ chunk) := by
  have hscan : (lineScanner ⟨0⟩).scan s.context.untimed (s.inputBuffer.readFd chunk).readable =
      (lineScanner ⟨0⟩).scan {} (pending ++ chunk) := by
    rw [ByteQueue.readable_readFd, h.resumes]
  obtain ⟨v, hrun, hstate, hrest, hok, hgo⟩ := parseRequest_lines h.going _ t hscan
    (by simp [hv]) (inLines_ne (scan_waits_inLines ⟨0⟩ _ _ hv)).1
  rw [hv, Option.isNone_none, Bool.and_eq_true] at hgo
  obtain ⟨hvok, hgot⟩ := hgo
  rw [Bool.not_eq_true'] at hgot
  refine ⟨{ s with context := v.context, inputBuffer := v.buf }, ?_, ?_, fun ys => ?_, ?_,
    h.handled⟩
  · simp only [deliver, onMessage, hrun, hvok, hgot, if_true, Bool.false_eq_true, if_false]
  · simpa [gotAll] using hgot
  · rw [hstate, hrest, Scanner.scan_of_waits hv]
  · rw [hrest]
    exact Scanner.scan_rest_suffix _ _

/-- A call over a buffer in which the next request is complete has got it. -/
theorem parseRequest_next {c : HttpContext} (hc : c.state ≠ .kGotAll) (q : ByteQueue)
    (t : Timestamp) {r : RequestMsg} (hbody : r.body = []) {rest : Bytes}
    (hscan : (lineScanner ⟨0⟩).scan c.untimed q.readable =
      (lineScanner ⟨0⟩).scan {} (r.render ++ rest)) :
    ∃ v, parseRequest c q t = .returns v ∧ v.ok = true ∧ v.context.gotAll = true ∧
      v.context.request.setReceiveTime ⟨0⟩ = r.parsed ⟨0⟩ ∧ v.buf.readable = rest := by
  rw [RequestMsg.render, hbody, List.append_nil, r.scan_head] at hscan
  obtain ⟨c', buf, hc', hbuf, hrun⟩ := parseRequest_untimed hc q t hscan
  have hreq : c'.request.setReceiveTime ⟨0⟩ = r.parsed ⟨0⟩ := congrArg HttpContext.request hc'
  by_cases hp : r.method = .kPost
  · rw [if_pos hp] at hc'
    have hs : c'.state = .kExpectBody := congrArg HttpContext.state hc'
    have hn : stoi (c'.request.getHeader (ascii "Content-Length")) = .ok (0 : Nat) := by
      rw [r.stoi_untimed hp hc', hbody]
      rfl
    have hi := parseIter_body t hs hn (Nat.zero_le buf.readableBytes)
    have hret : parseRequest c q t = .returns
        { hasMore := false, context := ⟨.kGotAll, c'.request.setBody []⟩,
          buf := buf.retrieve 0 } := by
      rw [hrun, finish]
      simp only [hs, if_true, hi]
      rfl
    refine ⟨_, hret, rfl, rfl, ?_, by rw [ByteQueue.readable_retrieve, hbuf]; rfl⟩
    have hset := congrArg (fun req : HttpRequest => req.setBody []) hreq
    exact hset
  · rw [if_neg hp] at hc'
    have hs : c'.state = .kGotAll := congrArg HttpContext.state hc'
    have hret : parseRequest c q t = .returns { hasMore := false, context := c', buf } := by
      rw [hrun, finish]
      simp only [hs, reduceCtorEq, if_false]
    exact ⟨_, hret, rfl, by simp [gotAll, hs], hreq, hbuf⟩

theorem requestsOf_append (xs ys : List ServerCall) :
    requestsOf (xs ++ ys) = requestsOf xs ++ requestsOf ys := List.filterMap_append

theorem requestsOf_eq_nil {xs : List ServerCall} (h : ∀ r, .httpCallback r ∉ xs) :
    requestsOf xs = [] := by
  refine List.filterMap_eq_nil_iff.mpr fun c hc => ?_
  cases c with
  | httpCallback req => exact absurd hc (h req)
  | send buf => rfl
  | shutdown => rfl

/-- A delivery that completes the next request handles it, and it alone. -/
theorem deliver_serves (henc : Encodes httpCallback) {s : Session} {served : List RequestMsg}
    {pending : Bytes} (h : Progress s served pending) (chunk : Bytes) (t : Timestamp)
    {r : RequestMsg} (hbody : r.body = []) {rest : Bytes}
    (hr : pending ++ chunk = r.render ++ rest) :
    ∃ s', deliver httpCallback s chunk t = .returns s' ∧ Progress s' (served ++ [r]) rest := by
  have hscan : (lineScanner ⟨0⟩).scan s.context.untimed (s.inputBuffer.readFd chunk).readable =
      (lineScanner ⟨0⟩).scan {} (r.render ++ rest) := by
    rw [ByteQueue.readable_readFd, h.resumes, hr]
  obtain ⟨v, hrun, hok, hgot, hreq, hrest⟩ := parseRequest_next h.going _ t hbody hscan
  obtain ⟨after, hreply, hafter⟩ := onRequest_spec henc
    { s with context := v.context, inputBuffer := v.buf } v.context.request
  refine ⟨{ context := {}, inputBuffer := v.buf,
            log := s.log ++ .httpCallback v.context.request :: after }, ?_,
    ⟨?_, fun ys => ?_, ?_, ?_⟩⟩
  · simp only [deliver, onMessage, hrun, hok, hgot, hreply, if_true]
    rfl
  · exact fun hs => by cases hs
  · rw [hrest]
    rfl
  · rw [hrest]
  · rw [List.append_cons, requestsOf_append, requestsOf_append, requestsOf_eq_nil hafter, h.handled,
      List.append_nil, List.map_append]
    exact congrArg _ (congrArg (fun req => [req]) hreq)

/-! ## Runs -/

/-- The parser keeps up from a point on at which it has seen `n` bytes of the messages `xs`, if
`chunks` are to come. -/
def KeepsUpFrom (xs : List Bytes) (n : Nat) (chunks : List (Bytes × Timestamp)) : Prop :=
  xs.length ≤ chunks.length ∧ ∀ i < chunks.length,
    xs.length ≤ complete xs (n + (bytesOf (chunks.take (i + 1))).length) + (chunks.length - (i + 1))

theorem keepsUpFrom_cons {xs : List Bytes} {n : Nat} {chunk : Bytes} {t : Timestamp}
    {chunks : List (Bytes × Timestamp)} :
    KeepsUpFrom xs n ((chunk, t) :: chunks) ↔ xs.length ≤ chunks.length + 1 ∧
      xs.length ≤ complete xs (n + chunk.length) + chunks.length ∧
      ∀ i < chunks.length, xs.length ≤
        complete xs (n + chunk.length + (bytesOf (chunks.take (i + 1))).length) +
          (chunks.length - (i + 1)) := by
  unfold KeepsUpFrom
  rw [List.length_cons, Nat.forall_lt_succ_left]
  simp [Nat.add_assoc, bytesOf]

/-- The first message is complete: it takes this delivery, and the rest have the others. -/
theorem keepsUpFrom_complete {x : Bytes} {xs : List Bytes} {n m : Nat} {chunk : Bytes}
    {t : Timestamp} {chunks : List (Bytes × Timestamp)} (h : n + chunk.length = x.length + m) :
    KeepsUpFrom (x :: xs) n ((chunk, t) :: chunks) ↔ KeepsUpFrom xs m chunks := by
  have hc : ∀ g, complete (x :: xs) (x.length + m + g) = complete xs (m + g) + 1 := fun g => by
    rw [complete, if_pos (by omega), Nat.add_assoc, Nat.add_sub_cancel_left]
  rw [keepsUpFrom_cons, h]
  unfold KeepsUpFrom
  have h₀ := hc 0
  simp only [Nat.add_zero] at h₀
  simp only [hc, h₀, List.length_cons]
  constructor
  · rintro ⟨h₁, -, h₃⟩
    exact ⟨by omega, fun i hi => by have := h₃ i hi; omega⟩
  · rintro ⟨h₁, h₃⟩
    exact ⟨by omega, by omega, fun i hi => by have := h₃ i hi; omega⟩

/-- The first message is not complete: this delivery handles nothing. -/
theorem keepsUpFrom_incomplete {x : Bytes} {xs : List Bytes} {n : Nat} {chunk : Bytes}
    {t : Timestamp} {chunks : List (Bytes × Timestamp)} (h : n + chunk.length < x.length) :
    KeepsUpFrom (x :: xs) n ((chunk, t) :: chunks) ↔
      KeepsUpFrom (x :: xs) (n + chunk.length) chunks := by
  have hc : complete (x :: xs) (n + chunk.length) = 0 := by
    rw [complete, if_neg (by omega)]
  rw [keepsUpFrom_cons, hc]
  unfold KeepsUpFrom
  constructor
  · rintro ⟨-, h₂, h₃⟩
    exact ⟨by omega, h₃⟩
  · rintro ⟨h₂, h₃⟩
    exact ⟨by omega, by omega, h₃⟩

/-- A run over the messages `rs`, of which the parser has seen `pending`: it handles some first
ones of them, and all of them exactly if it keeps up. -/
theorem run_progress (henc : Encodes httpCallback) :
    ∀ (chunks : List (Bytes × Timestamp)) {s : Session} {served rs : List RequestMsg}
      {pending : Bytes}, Progress s served pending → (∀ r ∈ rs, r.body = []) →
      pending ++ bytesOf chunks = (rs.map RequestMsg.render).flatten →
      ∃ s' k, run httpCallback s chunks = .returns s' ∧ k ≤ rs.length ∧
        Progress s' (served ++ rs.take k) ((rs.drop k).map RequestMsg.render).flatten ∧
        (rs.length ≤ k ↔ KeepsUpFrom (rs.map RequestMsg.render) pending.length chunks)
  | [], s, served, rs, pending, h, _, hbytes => by
    refine ⟨s, 0, rfl, Nat.zero_le _, ?_, by simp [KeepsUpFrom]⟩
    rw [show bytesOf [] = [] from rfl, List.append_nil] at hbytes
    simpa [hbytes] using h
  | (chunk, t) :: chunks, s, served, [], pending, h, hbody, hbytes => by
    obtain ⟨rfl, hchunks⟩ := List.append_eq_nil_iff.mp hbytes
    obtain ⟨rfl, -⟩ := List.append_eq_nil_iff.mp hchunks
    obtain ⟨s₁, hrun, h₁⟩ := deliver_waits httpCallback h [] t (by
      rw [List.append_nil, scan_nil])
    obtain ⟨s', k, hrun', hk, h', -⟩ := run_progress henc chunks h₁ hbody hbytes
    refine ⟨s', k, by rw [run, hrun]; exact hrun', hk, h', by simp [KeepsUpFrom]⟩
  | (chunk, t) :: chunks, s, served, r :: rs, pending, h, hbody, hbytes => by
    rw [bytesOf_cons, ← List.append_assoc, List.map_cons, List.flatten_cons] at hbytes
    have hr : r.body = [] := hbody r List.mem_cons_self
    have hpre : pending ++ chunk <+: r.render ++ (rs.map RequestMsg.render).flatten :=
      ⟨_, hbytes⟩
    by_cases hlen : r.render.length ≤ (pending ++ chunk).length
    · obtain ⟨rest, hrest⟩ :=
        List.prefix_of_prefix_length_le (List.prefix_append r.render _) hpre hlen
      obtain ⟨s₁, hrun, h₁⟩ := deliver_serves henc h chunk t hr hrest.symm
      rw [← hrest, List.append_assoc, List.append_cancel_left_eq] at hbytes
      obtain ⟨s', k, hrun', hk, h', hiff⟩ := run_progress henc chunks h₁
        (fun x hx => hbody x (List.mem_cons_of_mem r hx)) hbytes
      have hsum : pending.length + chunk.length = r.render.length + rest.length := by
        rw [← List.length_append, ← hrest, List.length_append]
      refine ⟨s', k + 1, ?_, Nat.succ_le_succ hk, ?_, ?_⟩
      · rw [run, hrun]
        exact hrun'
      · rw [List.append_assoc] at h'
        exact h'
      · rw [List.map_cons, keepsUpFrom_complete hsum, ← hiff, List.length_cons]
        exact Nat.succ_le_succ_iff
    · have hhead : r.render = r.head := by
        rw [RequestMsg.render, hr, List.append_nil]
      have hwait := scan_waits_of_short r (hhead ▸ hpre) (hhead ▸ Nat.lt_of_not_le hlen)
      obtain ⟨s₁, hrun, h₁⟩ := deliver_waits httpCallback h chunk t hwait
      obtain ⟨s', k, hrun', hk, h', hiff⟩ := run_progress henc chunks h₁ hbody hbytes
      refine ⟨s', k, by rw [run, hrun]; exact hrun', hk, h', ?_⟩
      rw [List.length_append] at hlen hiff
      rw [hiff, List.map_cons, keepsUpFrom_incomplete (Nat.lt_of_not_le hlen)]

theorem keepsUp_iff {rs : List RequestMsg} {chunks : List (Bytes × Timestamp)} :
    KeepsUp rs chunks ↔ KeepsUpFrom (rs.map RequestMsg.render) 0 chunks := by
  have hzero : complete (rs.map RequestMsg.render) 0 = 0 := by
    cases rs with
    | nil => rfl
    | cons r rs =>
      rw [List.map_cons, complete, if_neg]
      simp [RequestMsg.render, RequestMsg.head, RequestMsg.requestLine]
  unfold KeepsUp KeepsUpFrom
  simp only [← Nat.lt_succ_iff, Nat.forall_lt_succ_left]
  simp [hzero]

/-- **Every request is handled if and only if the deliveries keep up with the requests.** -/
theorem allServed_iff (henc : Encodes httpCallback) {rs : List RequestMsg}
    (hbody : ∀ r ∈ rs, r.body = []) {chunks : List (Bytes × Timestamp)}
    (hchunks : bytesOf chunks = (rs.map RequestMsg.render).flatten) :
    AllServed httpCallback rs chunks ↔ KeepsUp rs chunks := by
  obtain ⟨s, k, hrun, hk, h, hiff⟩ := run_progress henc chunks progress_init hbody hchunks
  rw [keepsUp_iff]
  refine Iff.trans ?_ hiff
  constructor
  · rintro ⟨s', hrun', hlog, -⟩
    cases hrun.symm.trans hrun'
    have hlen := congrArg List.length (h.handled.symm.trans hlog)
    simp only [List.nil_append, List.length_map, List.length_take] at hlen
    omega
  · intro hle
    have hlog := h.handled
    have hunread := h.unread
    rw [List.nil_append, List.take_of_length_le hle] at hlog
    rw [List.drop_of_length_le hle, List.map_nil, List.flatten_nil, List.suffix_nil] at hunread
    exact ⟨s, hrun, hlog, hunread⟩

/-- A request without headers, on a connection kept alive. -/
def pingRequest : RequestMsg where
  method := .kGet
  target := ascii "/"
  version := .kHttp11
  headers := ∅
  lines := []
  method_known := by decide
  version_known := by decide
  target_noSpace := by decide
  target_noCRLF := by decide
  lines_perm := by decide
  body_post := by decide
  body_other := by decide

/-- A callback that answers `200` and leaves the connection open. -/
def okCallback : HttpCallback := fun _ _ resp => resp.setStatusCode .k200Ok

/-- Two requests, each in a chunk of its own. -/
theorem allServed_iff_example :
    AllServed okCallback [pingRequest, pingRequest]
      [(pingRequest.render, ⟨1⟩), (pingRequest.render, ⟨2⟩)] := by
  have henc : Encodes okCallback := by
    intro log req close
    cases close <;> unfold HttpResponse.Encodable okCallback <;> decide
  have hkeeps : KeepsUp [pingRequest, pingRequest]
      [(pingRequest.render, ⟨1⟩), (pingRequest.render, ⟨2⟩)] := by
    unfold KeepsUp
    decide
  exact (allServed_iff henc (by decide) (by simp)).mpr hkeeps

/-- Two requests in one chunk: the second stays in the input buffer, unanswered. -/
theorem not_allServed_example :
    ∃ (rs : List RequestMsg) (chunks : List (Bytes × Timestamp)),
      (∀ r ∈ rs, r.body = [] ∧ wantsClose (r.parsed ⟨0⟩) = false) ∧
      bytesOf chunks = (rs.map RequestMsg.render).flatten ∧ ¬ AllServed okCallback rs chunks := by
  refine ⟨[pingRequest, pingRequest], [(pingRequest.render ++ pingRequest.render, ⟨1⟩)],
    by decide, by simp, ?_⟩
  rintro ⟨s, hrun, hlog, -⟩
  have hone : (run okCallback {} [(pingRequest.render ++ pingRequest.render, ⟨1⟩)]).value?.map
      (fun s => (requestsOf s.log).length) = some 1 := by
    decide +kernel
  rw [hrun] at hone
  simp [Outcome.value?, hlog] at hone

end HttpServer

end SimpleHttpServer
