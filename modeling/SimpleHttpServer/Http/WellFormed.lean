import SimpleHttpServer.Http.ContentLength
import SimpleHttpServer.Http.HalfClosed

/-!
# What reaches `httpCallback_`

A client may send anything, in any pieces. What `HttpContext` makes of it and hands on is well
formed nevertheless, and nothing of how it arrived is left in it: `print` writes a request down in
one way, from which the parser reads the same request again.

* `HttpContext.Sound` is what the parser has checked, state by state; `sound_parseIter` is the step;
* `parseRequest_print`: a well-formed request is what its text is parsed to;
* `wellFormed_of_trace`: every request that is executed is well formed;
* **`replayed`**: so a client that sends the requests of any run again, each of them as it is
  printed and in one piece, has the same requests executed in the same order.
-/

namespace SimpleHttpServer

open Lib Lib.Store Lib.Search Lib.Lines

/-! ## Trimming -/

namespace HttpRequest

theorem trim_part (xs : Bytes) : trim xs <:+: xs :=
  (List.rdropWhile_prefix isspace _).isInfix.trans (List.dropWhile_suffix isspace).isInfix

/-- What is trimmed starts with no white space. -/
theorem dropWhile_trim (xs : Bytes) : (trim xs).dropWhile isspace = trim xs := by
  rw [List.dropWhile_eq_self_iff]
  intro hpos hspace
  have hpre : trim xs <+: xs.dropWhile isspace := List.rdropWhile_prefix isspace _
  have hlong : 0 < (xs.dropWhile isspace).length := hpos.trans_le hpre.length_le
  have hhead : (xs.dropWhile isspace)[0] = (trim xs)[0] := (hpre.getElem hpos).symm
  refine List.dropWhile_get_zero_not isspace xs hlong ?_
  rw [List.get_eq_getElem, hhead]
  exact hspace

/-- A value is trimmed once. -/
theorem trim_trim (xs : Bytes) : trim (trim xs) = trim xs := by
  show ((trim xs).dropWhile isspace).rdropWhile isspace = trim xs
  rw [dropWhile_trim]
  exact List.rdropWhile_idempotent isspace _

/-- A header as `addHeader` stores it. -/
structure StoredHeader (name value : Bytes) : Prop where
  name_noCRLF : NoCRLF name
  name_noColon : 58 ∉ name
  value_noCRLF : NoCRLF value
  trimmed : trim value = value

/-- The part of a line that has no CRLF. -/
theorem noCRLF_of_part {xs ys : Bytes} (hy : NoCRLF ys) (h : xs <:+: ys) : NoCRLF xs :=
  fun hin => hy (hin.trans h)

theorem storedHeader_of_line {line : Bytes} (h : NoCRLF line) :
    StoredHeader (breakAt 58 line).1 (trim (breakAt 58 line).2.tail) := by
  have happ := breakAt_append 58 line
  have hname : (breakAt 58 line).1 <:+: line := ⟨[], (breakAt 58 line).2, by simpa using happ⟩
  have hafter : (breakAt 58 line).2 <:+: line :=
    ⟨(breakAt 58 line).1, [], by simpa using happ⟩
  exact ⟨noCRLF_of_part h hname, not_mem_breakAt_fst 58 line,
    noCRLF_of_part h ((trim_part _).trans ((List.tail_suffix _).isInfix.trans hafter)),
    trim_trim _⟩

/-! ## Well-formed requests -/

/-- What the request line and the header lines leave. -/
structure HeadRead (r : HttpRequest) : Prop where
  method_known : r.method ≠ .kInvalid
  version_known : r.version ≠ .kUnknown
  target_noSpace : 32 ∉ r.path ++ r.query
  target_noCRLF : NoCRLF (r.path ++ r.query)
  /-- The path ends where the query begins. -/
  target : breakAt 63 (r.path ++ r.query) = (r.path, r.query)
  headers : ∀ name value, r.headers[name]? = some value → StoredHeader name value

/-- A request as it is handed on. -/
structure WellFormed (r : HttpRequest) : Prop extends HeadRead r where
  body_post : r.method = .kPost →
    stoi (r.getHeader (ascii "Content-Length")) = .ok r.body.length
  body_other : r.method ≠ .kPost → r.body = []

variable {r : HttpRequest}

/-- A header line is stored. -/
theorem HeadRead.storeLine (h : r.HeadRead) {line : Bytes} (hline : NoCRLF line) :
    (r.storeLine line).HeadRead := by
  refine ⟨h.method_known, h.version_known, h.target_noSpace, h.target_noCRLF, h.target, ?_⟩
  intro name value hget
  change (r.headers.insert (breakAt 58 line).1 (trim (breakAt 58 line).2.tail))[name]? =
    some value at hget
  rw [Std.ExtTreeMap.getElem?_insert] at hget
  split at hget
  · rename_i heq
    rw [← Std.LawfulEqCmp.compare_eq_iff_eq.mp heq, ← Option.some.inj hget]
    exact storedHeader_of_line hline
  · exact h.headers name value hget

/-- A request line is stored. -/
theorem headRead_lineParts {line target : Bytes} {m : Method} {v : Version}
    (h : HttpContext.RequestLineOf line m target v) (hline : NoCRLF line) (t : Timestamp) :
    (HttpContext.requestOf m target v t).HeadRead := by
  have happ := breakAt_append 63 target
  have htarget : target <:+: line := by
    refine ⟨HttpRequest.methodString m ++ [32], 32 :: versionString v, ?_⟩
    rw [h.eq]
    simp only [List.append_assoc, List.cons_append, List.nil_append]
  refine ⟨h.method_known, h.version_known, ?_, ?_, ?_, fun name value hget => ?_⟩
  · show 32 ∉ (breakAt 63 target).1 ++ (breakAt 63 target).2
    rw [happ]
    exact h.target_noSpace
  · show NoCRLF ((breakAt 63 target).1 ++ (breakAt 63 target).2)
    rw [happ]
    exact noCRLF_of_part hline htarget
  · show breakAt 63 ((breakAt 63 target).1 ++ (breakAt 63 target).2) = _
    rw [happ]
    rfl
  · have hnone : (∅ : HeaderMap)[name]? = none := Std.ExtTreeMap.getElem?_empty
    exact nomatch hnone.symm.trans hget

end HttpRequest

/-! ## The parser -/

namespace HttpContext

/-- What the parser has checked so far. A request line that was rejected leaves its method behind,
or nothing. -/
def Sound (c : HttpContext) : Prop :=
  match c.state with
  | .kExpectRequestLine => c.request.method = .kInvalid → c.request = {}
  | .kExpectHeaders => c.request.HeadRead ∧ c.request.body = []
  | .kExpectBody => c.request.HeadRead ∧ c.request.method = .kPost
  | .kGotAll => c.request.WellFormed

theorem sound_init : Sound {} := fun _ => rfl

/-- A rejected request line with an unknown method leaves the request as it was. -/
theorem request_of_rejected {c c' : HttpContext} {line : Bytes}
    (h : c.processRequestLine line = .ok (false, c')) (hm : c'.request.method = .kInvalid) :
    c'.request = c.request := by
  unfold processRequestLine at h
  split at h
  · cases h
    rfl
  · rename_i method sp afterMethod hb
    unfold HttpRequest.setMethod at h
    by_cases hfree : c.request.method = .kInvalid
    · rw [if_pos hfree] at h
      by_cases hknown : HttpRequest.methodOf method = .kInvalid
      · simp only [hknown, bne_self_eq_false] at h
        cases h
        rw [← hfree]
      · have hset : (HttpRequest.methodOf method != .kInvalid) = true := bne_iff_ne.mpr hknown
        rw [hset] at h
        simp only at h
        -- the method is stored, whatever follows
        split at h
        · cases h
          exact absurd hm hknown
        · rename_i target sp' version hb'
          have hkeep := (processVersion_keeps (processTarget
            { c with request := { c.request with method := HttpRequest.methodOf method } } target)
            version).2
          rw [Except.ok.inj h, (processTarget_keeps _ _).2, hm] at hkeep
          exact absurd hkeep.symm hknown
    · rw [if_neg hfree] at h
      cases h

/-- The line in front of the first CRLF, if there is one. -/
theorem findCRLF_cases (q : ByteQueue) : q.findCRLF = none ∨
    ∃ crlf line, q.findCRLF = some crlf ∧ slice q.buffer q.peek crlf = line ∧ NoCRLF line := by
  cases hn : search Buffer.kCRLF q.readable with
  | none =>
    refine .inl ?_
    unfold Buffer.findCRLF
    rw [hn]
    rfl
  | some n =>
    refine .inr ⟨q.peek + n, q.readable.take n, ?_, slice_peek_crlf q hn,
      not_infix_take (by decide) hn⟩
    unfold Buffer.findCRLF
    rw [hn]
    rfl

/-- The body has the length that was read. -/
theorem length_assignFrom {b : Buffer} {n : Int} {body : Bytes} (h : b.assignFrom n = .ok body) :
    n = body.length := by
  unfold Buffer.assignFrom at h
  split at h
  · cases h
  · rename_i hneg
    split at h
    · rename_i hfit
      cases h
      rw [length_slice hfit]
      omega
    · cases h

/-- **An iteration keeps what was checked.** -/
theorem sound_parseIter {t : Timestamp} {v v' : ParseVars} (h : v.context.Sound)
    (hi : parseIter t v = .ok v') : v'.context.Sound := by
  obtain ⟨ok, hasMore, ⟨state, request⟩, buf, overread⟩ := v
  cases state with
  | kExpectRequestLine =>
    simp only [parseIter] at hi
    rcases findCRLF_cases buf with hfind | ⟨crlf, line, hfind, hslice, hline⟩
    · rw [hfind] at hi
      cases hi
      exact h
    · simp only [hfind, hslice] at hi
      split at hi
      · cases hi
      · rename_i c' haccepted
        cases hi
        obtain ⟨hfree, -, -⟩ := accepted_spec haccepted
        obtain ⟨m, target, version, hof⟩ := requestLineOf_of_accepted haccepted
        obtain rfl : request = {} := h hfree
        rw [processRequestLine_parts rfl rfl hof] at haccepted
        cases haccepted
        exact ⟨HttpRequest.headRead_lineParts hof hline t, rfl⟩
      · rename_i c' hrejected
        cases hi
        have hstate : c'.state = .kExpectRequestLine := processRequestLine_state hrejected
        show Sound c'
        unfold Sound
        rw [hstate]
        intro hm
        have hsame := request_of_rejected hrejected hm
        rw [hsame] at hm ⊢
        exact h hm
  | kExpectHeaders =>
    obtain ⟨hhead, hbody⟩ := h
    simp only [parseIter] at hi
    rcases findCRLF_cases buf with hfind | ⟨crlf, line, hfind, hslice, hline⟩
    · rw [hfind] at hi
      cases hi
      exact ⟨hhead, hbody⟩
    · simp only [hfind, hslice] at hi
      split at hi
      · rename_i field colon after hb
        cases hi
        have hstore : request.addHeader field after = request.storeLine line := by
          unfold HttpRequest.storeLine
          rw [hb]
          rfl
        show (request.addHeader field after).HeadRead ∧ _
        rw [hstore]
        exact ⟨hhead.storeLine hline, hbody⟩
      · split at hi
        · rename_i hpost
          cases hi
          exact ⟨hhead, hpost⟩
        · rename_i hpost
          cases hi
          exact ⟨hhead, fun hp => absurd hp hpost, fun _ => hbody⟩
  | kExpectBody =>
    obtain ⟨hhead, hpost⟩ := h
    simp only [parseIter] at hi
    split at hi
    · cases hi
    · rename_i contentlen hstoi
      split at hi
      · cases hi
      · rename_i body hassign
        cases hi
        refine ⟨⟨hhead.1, hhead.2, hhead.3, hhead.4, hhead.5, hhead.6⟩, fun _ => ?_, fun hp =>
          absurd hpost hp⟩
        show stoi (request.getHeader (ascii "Content-Length")) = .ok body.length
        rw [hstoi, length_assignFrom hassign]
  | kGotAll =>
    cases hi
    exact h

theorem sound_parseLoop {t : Timestamp} : ∀ (fuel : Nat) {v v' : ParseVars}, v.context.Sound →
    parseLoop t fuel v = .returns v' → v'.context.Sound
  | 0, _, _, _, hrun => nomatch hrun
  | fuel + 1, v, v', h, hrun => by
    unfold parseLoop at hrun
    split at hrun
    · split at hrun
      · cases hrun
      · rename_i hi
        exact sound_parseLoop fuel (sound_parseIter h hi) hrun
    · obtain rfl := Outcome.returns.inj hrun
      exact h

theorem sound_parseRequest {c : HttpContext} (h : c.Sound) {q : ByteQueue} {t : Timestamp}
    {v : ParseVars} (hrun : parseRequest c q t = .returns v) : v.context.Sound :=
  sound_parseLoop _ h hrun

theorem Sound.wellFormed {c : HttpContext} (h : c.Sound) (hgot : c.gotAll = true) :
    c.request.WellFormed := by
  have hstate : c.state = .kGotAll := beq_iff_eq.mp hgot
  unfold Sound at h
  rw [hstate] at h
  exact h

end HttpContext

/-! ## Printing a request -/

namespace HttpRequest

/-- The request line without its CRLF. -/
def requestLine (r : HttpRequest) : Bytes :=
  methodString r.method ++ 32 :: ((r.path ++ r.query) ++ 32 :: versionString r.version)

/-- A header as a line. -/
def headerLine (h : Bytes × Bytes) : Bytes := h.1 ++ 58 :: 32 :: h.2

/-- The request as one text, its headers in the order of the map. -/
def print (r : HttpRequest) : Bytes :=
  headOf r.requestLine (r.headers.toList.map headerLine) ++ r.body

theorem StoredHeader.isHeaderLine {name value : Bytes} (h : StoredHeader name value) :
    IsHeaderLine (headerLine (name, value)) := by
  have hvalue : NoCRLF (58 :: 32 :: value) := (h.value_noCRLF.cons (by decide)).cons (by decide)
  exact ⟨h.name_noCRLF.append hvalue (by simp), List.mem_append_right _ List.mem_cons_self⟩

theorem StoredHeader.storeLine {name value : Bytes} (h : StoredHeader name value)
    (req : HttpRequest) : req.storeLine (headerLine (name, value)) =
      { req with headers := req.headers.insert name value } := by
  have htrim : trim (32 :: value) = trim value := rfl
  unfold HttpRequest.storeLine headerLine
  rw [breakAt_append_cons h.name_noColon, addHeader, List.tail_cons, htrim, h.trimmed]

theorem storeLines_headerLine : ∀ {hs : List (Bytes × Bytes)} (req : HttpRequest),
    (∀ h ∈ hs, StoredHeader h.1 h.2) → req.storeLines (hs.map headerLine) =
      { req with headers := hs.foldl (fun m h => m.insert h.1 h.2) req.headers }
  | [], _, _ => rfl
  | h :: hs, req, hall => by
    have hfirst := (hall h List.mem_cons_self).storeLine req
    show (req.storeLine (headerLine h)).storeLines (hs.map headerLine) = _
    rw [hfirst, storeLines_headerLine _ fun g hg => hall g (List.mem_cons_of_mem h hg)]
    rfl

variable {r : HttpRequest}

theorem HeadRead.stored (h : r.HeadRead) : ∀ l ∈ r.headers.toList, StoredHeader l.1 l.2 :=
  fun l hl => h.headers l.1 l.2 (Std.ExtTreeMap.mem_toList_iff_getElem?_eq_some.mp hl)

/-- The header lines leave the headers. -/
theorem HeadRead.storeLines (h : r.HeadRead) (req : HttpRequest) (hreq : req.headers = ∅) :
    req.storeLines (r.headers.toList.map headerLine) = { req with headers := r.headers } := by
  rw [storeLines_headerLine req h.stored, hreq, foldl_insert_lines (List.Perm.refl _)]

theorem HeadRead.requestLineOf (h : r.HeadRead) :
    HttpContext.RequestLineOf r.requestLine r.method (r.path ++ r.query) r.version :=
  ⟨h.method_known, h.version_known, h.target_noSpace, rfl⟩

theorem HeadRead.noCRLF_requestLine (h : r.HeadRead) : NoCRLF r.requestLine := by
  have hversion : NoCRLF (32 :: versionString r.version) := by
    cases r.version <;> decide
  have htarget : NoCRLF (32 :: ((r.path ++ r.query) ++ 32 :: versionString r.version)) :=
    (h.target_noCRLF.append hversion (by simp)).cons (by decide)
  have hmethod : NoCRLF (methodString r.method) := by
    cases r.method <;> decide
  exact hmethod.append htarget (by simp)

/-- The request behind the printed head. -/
theorem HeadRead.requestOf (h : r.HeadRead) :
    (HttpContext.requestOf r.method (r.path ++ r.query) r.version r.receiveTime).storeLines
      (r.headers.toList.map headerLine) = { r with body := [] } := by
  rw [h.storeLines _ rfl]
  show HttpRequest.mk _ _ (breakAt 63 (r.path ++ r.query)).1 (breakAt 63 (r.path ++ r.query)).2
    _ _ _ = _
  rw [h.target]
  rfl

/-- **A well-formed request is what its text is parsed to**, and what follows is left. -/
theorem parseRequest_print (h : r.WellFormed) {q : ByteQueue} {rest : Bytes}
    (hq : q.readable = r.print ++ rest) :
    ∃ buf : ByteQueue, buf.readable = rest ∧ HttpContext.parseRequest {} q r.receiveTime =
      .returns { hasMore := false, context := ⟨.kGotAll, r⟩, buf } := by
  have hlines : ∀ l ∈ r.headers.toList.map headerLine, IsHeaderLine l := by
    intro l hl
    obtain ⟨header, hmem, rfl⟩ := List.mem_map.mp hl
    exact (h.stored header hmem).isHeaderLine
  rw [print, List.append_assoc] at hq
  have hrun := HttpContext.parseRequest_head h.requestLineOf h.noCRLF_requestLine hlines hq
    r.receiveTime
  have hbehind := HttpContext.readable_behind_head hq
  rw [h.requestOf] at hrun
  rw [hrun]
  generalize q.consume _ = buf at hbehind ⊢
  by_cases hpost : r.method = .kPost
  · have hstoi : stoi (HttpRequest.getHeader { r with body := [] } (ascii "Content-Length")) =
        .ok r.body.length := h.body_post hpost
    have hle : r.body.length ≤ buf.readableBytes := by
      rw [← buf.length_readable, hbehind, List.length_append]
      exact Nat.le_add_right _ _
    refine ⟨buf.retrieve r.body.length, ?_, ?_⟩
    · rw [ByteQueue.readable_retrieve, hbehind, List.drop_left]
    · simp only [HttpContext.finish, HttpContext.afterHeaders, hpost, if_true]
      rw [HttpContext.parseIter_body r.receiveTime rfl hstoi hle, hbehind, List.take_left]
      simp only [HttpRequest.setBody, ← hpost]
      rfl
  · have hbody := h.body_other hpost
    refine ⟨buf, by rw [hbehind, hbody, List.nil_append], ?_⟩
    simp only [HttpContext.finish, HttpContext.afterHeaders, hpost, if_false, reduceCtorEq]
    rw [← hbody]

end HttpRequest

/-! ## Runs -/

namespace HttpServer

open HttpContext

variable {httpCallback : HttpCallback}

/-- The requests executed, with their `receiveTime`. -/
def executed (log : List ServerCall) : List HttpRequest :=
  log.filterMap fun
    | .httpCallback req => some req
    | _ => none

theorem mem_executed {log : List ServerCall} {req : HttpRequest} :
    req ∈ executed log ↔ .httpCallback req ∈ log := by
  unfold executed
  rw [List.mem_filterMap]
  constructor
  · rintro ⟨call, hmem, hcall⟩
    cases call with
    | httpCallback req' =>
      obtain rfl := Option.some.inj hcall
      exact hmem
    | _ => cases hcall
  · exact fun hmem => ⟨_, hmem, rfl⟩

theorem executed_append (xs ys : List ServerCall) :
    executed (xs ++ ys) = executed xs ++ executed ys := List.filterMap_append

theorem executed_eq_nil {log : List ServerCall} (h : ∀ r, .httpCallback r ∉ log) :
    executed log = [] :=
  List.eq_nil_iff_forall_not_mem.mpr fun r hr => h r (mem_executed.mp hr)

theorem executed_requestCalls (log : List ServerCall) (req : HttpRequest) :
    executed (requestCalls httpCallback log req) = [req] := by
  obtain ⟨after, hcalls, hafter⟩ := @requestCalls_spec httpCallback log req
  rw [hcalls]
  show req :: executed after = [req]
  rw [executed_eq_nil hafter]

/-- **What a delivery executes is well formed.** -/
theorem wellFormed_of_deliver {s : Session} (h : s.context.Sound) (chunk : Bytes) (t : Timestamp) :
    ∀ req ∈ executed (deliverCalls httpCallback s chunk t), req.WellFormed := by
  intro req hreq
  unfold deliverCalls at hreq
  split at hreq
  · rename_i v hv
    have hrejects : executed (if v.ok then [] else [.send badRequest, .shutdown]) = [] := by
      split <;> rfl
    simp only at hreq
    split at hreq
    · rename_i hgot
      rw [executed_append, hrejects, executed_requestCalls, List.nil_append,
        List.mem_singleton] at hreq
      rw [hreq]
      exact (sound_parseRequest h hv).wellFormed hgot
    · rw [hrejects] at hreq
      exact absurd hreq List.not_mem_nil
  · exact absurd hreq List.not_mem_nil

theorem sound_deliver {s s' : Session} (h : s.context.Sound) {chunk : Bytes} {t : Timestamp}
    (hd : deliver httpCallback s chunk t = .returns s') : s'.context.Sound := by
  unfold deliver onMessage at hd
  simp only at hd
  split at hd
  · cases hd
  · cases hd
  · rename_i v hv
    have hsound := sound_parseRequest h hv
    cases hok : v.ok with
    | true =>
      simp only [hok, if_true] at hd
      split at hd
      · split at hd
        · cases hd
        · cases hd
          exact sound_init
      · cases hd
        exact hsound
    | false =>
      simp only [hok, if_false, Bool.false_eq_true] at hd
      split at hd
      · split at hd
        · cases hd
        · cases hd
          exact sound_init
      · cases hd
        exact hsound

/-- Every request that is executed is well formed, whatever arrives. -/
theorem wellFormed_of_trace : ∀ (chunks : List (Bytes × Timestamp)) {s : Session},
    s.context.Sound → (∀ req ∈ executed s.log, req.WellFormed) →
      ∀ req ∈ executed (trace httpCallback s chunks), req.WellFormed
  | [], _, _, hlog => hlog
  | (chunk, t) :: chunks, s, h, hlog => by
    have hcalls := @wellFormed_of_deliver httpCallback s h chunk t
    have hall : ∀ req ∈ executed (s.log ++ deliverCalls httpCallback s chunk t),
        req.WellFormed := by
      rw [executed_append]
      intro req hreq
      exact (List.mem_append.mp hreq).elim (hlog req) (hcalls req)
    unfold trace
    split
    · rename_i s' hd
      refine wellFormed_of_trace chunks (sound_deliver h hd) ?_
      rw [deliver_log hd]
      exact hall
    · exact hall

/-- The requests, each of them printed and in one piece. -/
def reprint (rs : List HttpRequest) : List (Bytes × Timestamp) :=
  rs.map fun r => (r.print, r.receiveTime)

/-- A printed request is executed by a session between two requests. -/
theorem deliver_print (henc : Encodes httpCallback) {s : Session} (hcontext : s.context = {})
    (hempty : s.inputBuffer.readable = []) {r : HttpRequest} (h : r.WellFormed) :
    ∃ s', deliver httpCallback s r.print r.receiveTime = .returns s' ∧ s'.context = {} ∧
      s'.inputBuffer.readable = [] ∧ executed s'.log = executed s.log ++ [r] := by
  have hq : (s.inputBuffer.readFd r.print).readable = r.print ++ [] := by
    rw [ByteQueue.readable_readFd, hempty, List.nil_append, List.append_nil]
  obtain ⟨buf, hbuf, hrun⟩ := HttpRequest.parseRequest_print h hq
  obtain ⟨after, hrequest, hafter⟩ :=
    onRequest_spec henc { s with context := ⟨.kGotAll, r⟩, inputBuffer := buf } r
  have hd : deliver httpCallback s r.print r.receiveTime =
      .returns ⟨{}, buf, s.log ++ .httpCallback r :: after⟩ := by
    unfold deliver onMessage
    simp only [hcontext, hrun, gotAll, beq_self_eq_true, if_true, hrequest]
    rfl
  refine ⟨_, hd, rfl, hbuf, ?_⟩
  rw [executed_append]
  show executed s.log ++ r :: executed after = _
  rw [executed_eq_nil hafter]

theorem run_reprint (henc : Encodes httpCallback) : ∀ (rs : List HttpRequest) {s : Session},
    s.context = {} → s.inputBuffer.readable = [] → (∀ r ∈ rs, r.WellFormed) →
      ∃ s', run httpCallback s (reprint rs) = .returns s' ∧ s'.context = {} ∧
        s'.inputBuffer.readable = [] ∧ executed s'.log = executed s.log ++ rs
  | [], s, hcontext, hempty, _ => ⟨s, rfl, hcontext, hempty, (List.append_nil _).symm⟩
  | r :: rs, s, hcontext, hempty, h => by
    obtain ⟨s₁, hd, hcontext₁, hempty₁, hlog₁⟩ :=
      deliver_print henc hcontext hempty (h r List.mem_cons_self)
    obtain ⟨s₂, hrun, hcontext₂, hempty₂, hlog₂⟩ :=
      run_reprint henc rs hcontext₁ hempty₁ fun x hx => h x (List.mem_cons_of_mem r hx)
    refine ⟨s₂, ?_, hcontext₂, hempty₂, by rw [hlog₂, hlog₁, List.append_assoc]; rfl⟩
    show run httpCallback s ((r.print, r.receiveTime) :: reprint rs) = _
    rw [run, hd]
    exact hrun

/-- **The requests of any run can be played again.** Whatever chunks a client sends, and whatever
the run ends with, every request that is executed is well formed; and the same requests, each of
them printed and in one piece, are executed again, the same and in the same order, and leave the
session between two requests. -/
theorem replayed (henc : Encodes httpCallback) (chunks : List (Bytes × Timestamp)) :
    (∀ r ∈ executed (trace httpCallback {} chunks), r.WellFormed) ∧
    ∃ s, run httpCallback {} (reprint (executed (trace httpCallback {} chunks))) = .returns s ∧
      s.context = {} ∧ s.inputBuffer.readable = [] ∧
      executed s.log = executed (trace httpCallback {} chunks) := by
  have hall := @wellFormed_of_trace httpCallback chunks {} sound_init
    fun r hr => absurd hr List.not_mem_nil
  exact ⟨hall, run_reprint henc _ rfl (ByteQueue.readable_new _) hall⟩

/-- A POST in two pieces, with a length that is not written as `print` would write it, and bytes
behind it that are no request. -/
theorem replayed_example :
    ∃ s r, run defaultHttpCallback {} (reprint (executed (trace defaultHttpCallback {}
        [(ascii "POST /a?b HT", ⟨1⟩),
          (ascii "TP/1.1\r\nContent-Length:\t+2 \r\nA:\r\n\r\nhiX X\r\n", ⟨2⟩)]))) = .returns s ∧
      executed s.log = [r] ∧ r.body = ascii "hi" ∧ r.WellFormed := by
  have henc : Encodes defaultHttpCallback := by
    intro log req close
    unfold HttpResponse.Encodable defaultHttpCallback
    cases close <;> decide
  obtain ⟨hall, s, hrun, -, -, hlog⟩ := replayed henc
    [(ascii "POST /a?b HT", ⟨1⟩),
      (ascii "TP/1.1\r\nContent-Length:\t+2 \r\nA:\r\n\r\nhiX X\r\n", ⟨2⟩)]
  have hone : (executed (trace defaultHttpCallback {} [(ascii "POST /a?b HT", ⟨1⟩),
      (ascii "TP/1.1\r\nContent-Length:\t+2 \r\nA:\r\n\r\nhiX X\r\n", ⟨2⟩)])).map
        HttpRequest.body = [ascii "hi"] := by
    decide +kernel
  obtain ⟨r, hr, hbody⟩ := List.map_eq_singleton_iff.mp hone
  rw [hr] at hall hlog
  exact ⟨s, r, hrun, hlog, hbody, hall r List.mem_cons_self⟩

end HttpServer

end SimpleHttpServer
