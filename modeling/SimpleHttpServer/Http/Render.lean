import SimpleHttpServer.Http.LineScanner

/-!
# Rendering a request, and parsing it back

`RequestMsg` is a request as a peer sends it: its fields, the order and the padding of its header
lines, and the conditions that make it well formed. `render` writes it down.

* `scan_head`: over a rendered head, the line states consume exactly the head and end with the
  fields of the message, in state `kExpectBody` for a POST and `kGotAll` otherwise;
* **`parse_render`**: one call of `parseRequest` on a fresh context undoes `render`, whatever
  follows the message in the buffer.
-/

namespace SimpleHttpServer

open Lib Lib.Store Lib.Search

/-! ## Lines without a CRLF -/

/-- No CRLF occurs. -/
def NoCRLF (xs : Bytes) : Prop := ¬ Buffer.kCRLF <:+: xs

instance (xs : Bytes) : Decidable (NoCRLF xs) := inferInstanceAs (Decidable (¬ _))

/-- A CRLF can only arise at a seam with an LF behind it. -/
theorem NoCRLF.append {xs ys : Bytes} (hx : NoCRLF xs) (hy : NoCRLF ys)
    (h : ys.head? ≠ some 10) : NoCRLF (xs ++ ys) := by
  intro hin
  rcases List.infix_append_iff_ne_nil.mp hin with h₁ | h₁ | ⟨l₁, l₂, hne₁, hne₂, heq, -, hpre⟩
  · exact hx h₁
  · exact hy h₁
  · obtain ⟨a, l₁, rfl⟩ := List.exists_cons_of_ne_nil hne₁
    obtain ⟨b, l₂, rfl⟩ := List.exists_cons_of_ne_nil hne₂
    have hcons : l₁ ++ b :: l₂ = [10] := (List.cons.inj heq).2.symm
    obtain ⟨rfl, hb⟩ : l₁ = [] ∧ b = 10 := by
      cases l₁ with
      | nil => exact ⟨rfl, (List.cons.inj hcons).1⟩
      | cons d l₁ => simp at hcons
    obtain ⟨rest, hrest⟩ := hpre
    exact h (by rw [← hrest, hb]; rfl)

theorem NoCRLF.cons {c : UInt8} {xs : Bytes} (h : NoCRLF xs) (hc : c ≠ 13) : NoCRLF (c :: xs) := by
  intro hin
  rcases List.infix_cons_iff.mp hin with ⟨rest, hrest⟩ | h₁
  · exact hc (List.cons.inj hrest).1.symm
  · exact h h₁

theorem noCRLF_of_not_mem {xs : Bytes} (h : 13 ∉ xs) : NoCRLF xs := fun hin =>
  h (hin.subset List.mem_cons_self)

/-- A line is found when its CRLF is there. -/
theorem search_kCRLF {line : Bytes} (h : NoCRLF line) (rest : Bytes) :
    search Buffer.kCRLF (line ++ (Buffer.kCRLF ++ rest)) = some line.length :=
  search_line (by decide) h rest

/-! ## Header lines -/

/-- Spaces and tabs. -/
def Padding (xs : Bytes) : Prop := ∀ c ∈ xs, c = 32 ∨ c = 9

instance (xs : Bytes) : Decidable (Padding xs) := List.decidableBAll _ xs

theorem Padding.isspace {xs : Bytes} (h : Padding xs) : ∀ c ∈ xs, isspace c = true := by
  intro c hc
  rcases h c hc with rfl | rfl <;> rfl

theorem Padding.noCRLF {xs : Bytes} (h : Padding xs) : NoCRLF xs :=
  noCRLF_of_not_mem fun hm => by rcases h 13 hm with h₁ | h₁ <;> exact absurd h₁ (by decide)

theorem Padding.head?_ne {xs : Bytes} (h : Padding xs) : xs.head? ≠ some 10 := by
  intro hh
  rcases h 10 (List.mem_of_mem_head? hh) with h₁ | h₁ <;> exact absurd h₁ (by decide)

/-- A header line: `name ':' padding value padding`. -/
structure HeaderLine where
  name : Bytes
  before : Bytes := []
  value : Bytes
  after : Bytes := []
  name_noCRLF : NoCRLF name
  name_noColon : 58 ∉ name
  value_noCRLF : NoCRLF value
  value_head : value.head?.any isspace = false
  value_last : value.getLast?.any isspace = false
  before_padding : Padding before
  after_padding : Padding after

namespace HeaderLine

variable (h : HeaderLine)

/-- The line after its colon. -/
def padded : Bytes := h.before ++ (h.value ++ h.after)

/-- The line without its CRLF. -/
def line : Bytes := h.name ++ 58 :: h.padded

/-- The line with its CRLF. -/
def render : Bytes := h.line ++ Buffer.kCRLF

theorem noCRLF_line : NoCRLF h.line := by
  have hvalue : (h.value ++ h.after).head? ≠ some 10 := by
    cases hv : h.value with
    | nil => exact h.after_padding.head?_ne
    | cons c cs =>
      intro hc
      have hsp := h.value_head
      rw [hv, List.head?_cons, show c = 10 from Option.some.inj hc] at hsp
      exact absurd hsp (by decide)
  have hpadded : NoCRLF h.padded :=
    h.before_padding.noCRLF.append
      (h.value_noCRLF.append h.after_padding.noCRLF h.after_padding.head?_ne) hvalue
  have hcolon : NoCRLF (58 :: h.padded) := hpadded.cons (by decide)
  exact h.name_noCRLF.append hcolon (by simp)

/-- Trimming takes the padding off. -/
theorem trim_padded : HttpRequest.trim h.padded = h.value := by
  unfold HttpRequest.trim padded List.rdropWhile
  rw [List.dropWhile_append_of_pos h.before_padding.isspace]
  cases hv : h.value with
  | nil =>
    rw [List.nil_append, List.dropWhile_eq_nil_iff.mpr h.after_padding.isspace]
    rfl
  | cons c cs =>
    have hc : isspace c = false := by
      have hsp := h.value_head
      rwa [hv] at hsp
    have hafter : ∀ d ∈ h.after.reverse, isspace d = true := fun d hd =>
      h.after_padding.isspace d (List.mem_reverse.mp hd)
    rw [List.cons_append, List.dropWhile_cons_of_neg (by simp [hc]), ← List.cons_append, ← hv,
      List.reverse_append, List.dropWhile_append_of_pos hafter]
    cases hr : h.value.reverse with
    | nil => exact absurd (List.reverse_eq_nil_iff.mp hr) (by simp [hv])
    | cons d ds =>
      have hd : isspace d = false := by
        have hsp := h.value_last
        rwa [← List.head?_reverse, hr] at hsp
      rw [List.dropWhile_cons_of_neg (by simp [hd]), ← hr, List.reverse_reverse]

end HeaderLine

/-- The map in which header lines end up. -/
theorem foldl_insert_lines {m : HeaderMap} {lines : List (Bytes × Bytes)}
    (h : lines.Perm m.toList) : lines.foldl (fun hs l => hs.insert l.1 l.2) ∅ = m := by
  have hfold : ∀ (ls : List (Bytes × Bytes)) (m₀ : HeaderMap),
      ls.foldl (fun hs l => hs.insert l.1 l.2) m₀ = m₀.insertMany ls := by
    intro ls
    induction ls with
    | nil => intro m₀; simp
    | cons l ls ih => intro m₀; rw [List.foldl_cons, ih, Std.ExtTreeMap.insertMany_cons]
  have hdistinct : lines.Pairwise fun a b => ¬ compare a.1 b.1 = .eq :=
    (h.pairwise_iff fun hab hba => hab (Std.OrientedCmp.eq_symm hba)).mpr
      Std.ExtTreeMap.distinct_keys_toList
  rw [hfold, ← Std.ExtTreeMap.ofList_eq_insertMany_empty]
  refine Std.ExtTreeMap.ext_getElem? fun k => ?_
  cases hk : m[k]? with
  | some v =>
    have hmem := h.mem_iff.mpr (Std.ExtTreeMap.mem_toList_iff_getElem?_eq_some.mpr hk)
    exact Std.ExtTreeMap.getElem?_ofList_of_mem Std.ReflCmp.compare_self hdistinct hmem
  | none =>
    refine Std.ExtTreeMap.getElem?_ofList_of_contains_eq_false ?_
    rw [Bool.eq_false_iff, ne_eq, List.contains_iff_mem]
    intro hin
    obtain ⟨⟨k', v⟩, hmem, rfl⟩ := List.mem_map.mp hin
    have hv := Std.ExtTreeMap.mem_toList_iff_getElem?_eq_some.mp (h.mem_iff.mp hmem)
    exact absurd (hk.symm.trans hv) (by simp)

/-! ## Requests -/

/-- The text of a version. -/
def versionString : Version → Bytes
  | .kHttp11 => ascii "HTTP/1.1"
  | .kHttp10 => ascii "HTTP/1.0"
  | .kUnknown => []

/-- A well-formed request, with its header lines in the order in which they are sent. -/
structure RequestMsg where
  method : Method
  target : Bytes
  version : Version
  headers : HeaderMap
  lines : List HeaderLine
  body : Bytes := []
  method_known : method ≠ .kInvalid
  version_known : version ≠ .kUnknown
  target_noSpace : 32 ∉ target
  target_noCRLF : NoCRLF target
  /-- Each header is sent once. -/
  lines_perm : (lines.map fun l => (l.name, l.value)).Perm headers.toList
  /-- The body of a POST has a length that is an `int`, and announces it. -/
  body_post : method = .kPost → body.length < 2 ^ 31 ∧
    headers[ascii "Content-Length"]? = some (decimal body.length)
  body_other : method ≠ .kPost → body = []

namespace RequestMsg

variable (r : RequestMsg)

/-- The request line without its CRLF. -/
def requestLine : Bytes :=
  HttpRequest.methodString r.method ++ 32 :: (r.target ++ 32 :: versionString r.version)

/-- Everything in front of the body. -/
def head : Bytes :=
  r.requestLine ++ (Buffer.kCRLF ++ (r.lines.flatMap HeaderLine.render ++ Buffer.kCRLF))

/-- The request as a client sends it. -/
def render : Bytes := r.head ++ r.body

/-- The request an `HttpContext` holds once it has read the head. -/
def parsed (t : Timestamp) : HttpRequest where
  method := r.method
  version := r.version
  path := (breakAt 63 r.target).1
  query := (breakAt 63 r.target).2
  receiveTime := t
  headers := r.headers

theorem noCRLF_requestLine : NoCRLF r.requestLine := by
  have hv : NoCRLF (32 :: versionString r.version) := by
    cases r.version <;> decide
  have ht : NoCRLF (32 :: (r.target ++ 32 :: versionString r.version)) :=
    (r.target_noCRLF.append hv (by simp)).cons (by decide)
  have hm : NoCRLF (HttpRequest.methodString r.method) := by
    cases r.method <;> decide
  exact hm.append ht (by simp)

/-! ## Scanning a rendered head -/

theorem processVersion_versionString (c : HttpContext) {v : Version} (hv : v ≠ .kUnknown) :
    c.processVersion (versionString v) =
      (true, { c with request := c.request.setVersion v }) := by
  cases v with
  | kUnknown => exact absurd rfl hv
  | kHttp10 => rfl
  | kHttp11 => rfl

/-- The request of a fresh context after the request line. -/
def started (t : Timestamp) : HttpRequest := { r.parsed t with headers := ∅ }

theorem processTarget_eq (c : HttpContext) (hq : c.request.query = []) (target : Bytes) :
    c.processTarget target = { c with request :=
      (c.request.setPath (breakAt 63 target).1).setQuery (breakAt 63 target).2 } := by
  unfold HttpContext.processTarget
  rcases breakAt 63 target with ⟨path, _ | ⟨q, query⟩⟩
  · simp only [HttpRequest.setPath, HttpRequest.setQuery, ← hq]
  · rfl

theorem processRequestLine_requestLine :
    HttpContext.processRequestLine {} r.requestLine =
      .ok (true, ⟨.kExpectRequestLine, r.started ⟨0⟩⟩) := by
  have hm : (32 : UInt8) ∉ HttpRequest.methodString r.method := by
    cases r.method <;> decide
  have hset : HttpRequest.setMethod {} (HttpRequest.methodString r.method) =
      .ok (true, { method := r.method }) := by
    simp [HttpRequest.setMethod, HttpRequest.methodOf_methodString r.method_known, r.method_known]
  unfold HttpContext.processRequestLine requestLine
  rw [breakAt_append_cons hm]
  simp only [hset, breakAt_append_cons r.target_noSpace]
  rw [processTarget_eq _ rfl, processVersion_versionString _ r.version_known]
  rfl

/-- The move over a line that is there with its CRLF. -/
theorem lineMove_line {t : Timestamp} {c : HttpContext} (hc : c.inLines = true) {line : Bytes}
    (hl : NoCRLF line) (xs : Bytes) :
    HttpContext.lineMove t c (line ++ (Buffer.kCRLF ++ xs)) = c.onLine t line := by
  simp only [HttpContext.lineMove, hc, if_true, search_kCRLF hl, List.take_left]

theorem drop_line (line xs : Bytes) :
    (line ++ (Buffer.kCRLF ++ xs)).drop (line.length + 2) = xs := by
  rw [← List.append_assoc, List.drop_left' (by rw [List.length_append]; rfl)]

theorem scan_requestLine (t : Timestamp) (xs : Bytes) :
    (HttpContext.lineScanner t).scan {} (r.requestLine ++ (Buffer.kCRLF ++ xs)) =
      (HttpContext.lineScanner t).scan ⟨.kExpectHeaders, r.started t⟩ xs := by
  have hmove : HttpContext.lineMove t {} (r.requestLine ++ (Buffer.kCRLF ++ xs)) =
      .advance ⟨.kExpectHeaders, r.started t⟩ (r.requestLine.length + 2) := by
    rw [lineMove_line rfl r.noCRLF_requestLine]
    simp only [HttpContext.onLine, if_true, r.processRequestLine_requestLine]
    rfl
  rw [Scanner.scan_advance hmove, drop_line]

/-- A request with header lines stored. -/
def withLines (req : HttpRequest) (hs : List HeaderLine) : HttpRequest :=
  { req with headers := hs.foldl (fun m l => m.insert l.name l.value) req.headers }

theorem scan_headerLine (t : Timestamp) (req : HttpRequest) (h : HeaderLine) (xs : Bytes) :
    (HttpContext.lineScanner t).scan ⟨.kExpectHeaders, req⟩ (h.render ++ xs) =
      (HttpContext.lineScanner t).scan ⟨.kExpectHeaders, withLines req [h]⟩ xs := by
  have hmove : HttpContext.lineMove t ⟨.kExpectHeaders, req⟩ (h.line ++ (Buffer.kCRLF ++ xs)) =
      .advance ⟨.kExpectHeaders, withLines req [h]⟩ (h.line.length + 2) := by
    rw [lineMove_line rfl h.noCRLF_line]
    simp only [HttpContext.onLine, reduceCtorEq, if_false, HeaderLine.line,
      breakAt_append_cons h.name_noColon, HttpRequest.addHeader, h.trim_padded]
    rfl
  rw [HeaderLine.render, List.append_assoc, Scanner.scan_advance hmove, drop_line]

theorem scan_headerLines (t : Timestamp) (xs : Bytes) :
    ∀ (hs : List HeaderLine) (req : HttpRequest),
      (HttpContext.lineScanner t).scan ⟨.kExpectHeaders, req⟩
          (hs.flatMap HeaderLine.render ++ xs) =
        (HttpContext.lineScanner t).scan ⟨.kExpectHeaders, withLines req hs⟩ xs
  | [], _ => rfl
  | h :: hs, req => by
    rw [List.flatMap_cons, List.append_assoc, scan_headerLine, scan_headerLines t xs hs]
    rfl

theorem scan_emptyLine (t : Timestamp) (req : HttpRequest) (xs : Bytes) :
    (HttpContext.lineScanner t).scan ⟨.kExpectHeaders, req⟩ (Buffer.kCRLF ++ xs) =
      ⟨some (.ok true), ⟨if req.method = .kPost then .kExpectBody else .kGotAll, req⟩, xs⟩ := by
  have hmove : (HttpContext.lineScanner t).move ⟨.kExpectHeaders, req⟩ (Buffer.kCRLF ++ xs) =
      .halt (.ok true) ⟨if req.method = .kPost then .kExpectBody else .kGotAll, req⟩ 2 := by
    have hline : HttpContext.lineMove t ⟨.kExpectHeaders, req⟩ ([] ++ (Buffer.kCRLF ++ xs)) =
        HttpContext.onLine t ⟨.kExpectHeaders, req⟩ [] :=
      lineMove_line rfl (noCRLF_of_not_mem List.not_mem_nil) xs
    exact hline.trans rfl
  rw [Scanner.scan_halt hmove]
  rfl

/-- **Over a rendered head the line states consume exactly the head**, and have read it. -/
theorem scan_head (t : Timestamp) (xs : Bytes) :
    (HttpContext.lineScanner t).scan {} (r.head ++ xs) =
      ⟨some (.ok true),
        ⟨if r.method = .kPost then .kExpectBody else .kGotAll, r.parsed t⟩, xs⟩ := by
  unfold head
  rw [List.append_assoc, List.append_assoc, List.append_assoc, scan_requestLine, scan_headerLines,
    scan_emptyLine]
  have hheaders := foldl_insert_lines r.lines_perm
  rw [List.foldl_map] at hheaders
  simp only [withLines, started, hheaders]
  rfl

/-! ## The round trip -/

theorem stoi_contentLength (hp : r.method = .kPost) (t : Timestamp) :
    stoi ((r.parsed t).getHeader (ascii "Content-Length")) = .ok r.body.length := by
  obtain ⟨hlt, hheader⟩ := r.body_post hp
  unfold HttpRequest.getHeader parsed
  rw [hheader]
  exact stoi_decimal hlt

/-- A context that has read the head of a POST knows the length of the body. -/
theorem stoi_untimed (hp : r.method = .kPost) {c : HttpContext}
    (hc : c.untimed = ⟨.kExpectBody, r.parsed ⟨0⟩⟩) :
    stoi (c.request.getHeader (ascii "Content-Length")) = .ok r.body.length := by
  have hheaders : c.request.headers = (r.parsed ⟨0⟩).headers :=
    congrArg (fun x : HttpContext => x.request.headers) hc
  have h := r.stoi_contentLength hp ⟨0⟩
  rwa [HttpRequest.getHeader, ← hheaders] at h

/-- One call on a fresh context, over a rendered message and what follows it. -/
theorem parseRequest_render {q : ByteQueue} {rest : Bytes} (hq : q.readable = r.render ++ rest)
    (t : Timestamp) :
    ∃ buf : ByteQueue, buf.readable = rest ∧
      HttpContext.parseRequest {} q t = .returns
        { hasMore := false
          context := ⟨.kGotAll, (r.parsed t).setBody r.body⟩
          buf } := by
  obtain ⟨buf, hbuf, hrun⟩ := HttpContext.parseRequest_eq (c := {}) (by decide) q t
  rw [hq, render, List.append_assoc, scan_head] at hbuf hrun
  rw [hrun]
  by_cases hp : r.method = .kPost
  · have hn := r.stoi_contentLength hp t
    have hle : r.body.length ≤ buf.readableBytes := by
      rw [← buf.length_readable, hbuf, List.length_append]
      exact Nat.le_add_right _ _
    refine ⟨buf.retrieve r.body.length, ?_, ?_⟩
    · rw [ByteQueue.readable_retrieve, hbuf, List.drop_left]
    · simp only [HttpContext.finish, hp, if_true]
      rw [HttpContext.parseIter_body t rfl hn hle, hbuf, List.take_left]
      rfl
  · refine ⟨buf, by rw [hbuf, r.body_other hp, List.nil_append], ?_⟩
    simp only [HttpContext.finish, hp, if_false, reduceCtorEq]
    rw [r.body_other hp]
    rfl

/-- **Parsing undoes rendering.** -/
theorem parse_render (q : ByteQueue) (rest : Bytes) (t : Timestamp)
    (hq : q.readable = r.render ++ rest) :
    ∃ v, HttpContext.parseRequest {} q t = .returns v ∧
      v.ok = true ∧ v.context.state = .kGotAll ∧ v.overread = false ∧
      v.context.request.method = r.method ∧
      v.context.request.version = r.version ∧
      v.context.request.headers = r.headers ∧
      v.context.request.body = r.body ∧
      v.context.request.path ++ v.context.request.query = r.target ∧
      63 ∉ v.context.request.path ∧
      (v.context.request.query = [] ∨ v.context.request.query.head? = some 63) ∧
      v.buf.readable = rest := by
  obtain ⟨buf, hbuf, hrun⟩ := r.parseRequest_render hq t
  have hquery : (breakAt 63 r.target).2 = [] ∨ (breakAt 63 r.target).2.head? = some 63 := by
    cases hb : (breakAt 63 r.target).2 with
    | nil => exact Or.inl rfl
    | cons c cs => exact Or.inr (congrArg some (breakAt_snd_cons hb))
  exact ⟨_, hrun, rfl, rfl, rfl, rfl, rfl, rfl, rfl, breakAt_append 63 r.target,
    not_mem_breakAt_fst 63 r.target, hquery, hbuf⟩

/-- A POST with a query, a padded header and a body. -/
def postExample : RequestMsg where
  method := .kPost
  target := ascii "/a?b?c"
  version := .kHttp10
  headers := Std.ExtTreeMap.ofList
    [(ascii "Host", ascii "x:80"), (ascii "Content-Length", ascii "2")]
  lines :=
    [⟨ascii "Host", [32], ascii "x:80", [9], by decide, by decide, by decide, by decide,
        by decide, by decide, by decide⟩,
      ⟨ascii "Content-Length", [], ascii "2", [], by decide, by decide, by decide, by decide,
        by decide, by decide, by decide⟩]
  body := ascii "hi"
  method_known := by decide
  version_known := by decide
  target_noSpace := by decide
  target_noCRLF := by decide
  lines_perm := by decide
  body_post := by decide
  body_other := by decide

theorem parse_render_example :
    ∃ v, HttpContext.parseRequest {}
        ((ByteQueue.new 16).append (postExample.render ++ ascii "GET ")) ⟨7⟩ = .returns v ∧
      v.ok = true ∧ v.context.state = .kGotAll ∧ v.context.request.body = ascii "hi" ∧
      v.buf.readable = ascii "GET " := by
  obtain ⟨v, hrun, hok, hs, -, -, -, -, hbody, -, -, -, hrest⟩ :=
    postExample.parse_render ((ByteQueue.new 16).append (postExample.render ++ ascii "GET "))
      (ascii "GET ") ⟨7⟩ (ByteQueue.readable_append_new _ _)
  exact ⟨v, hrun, hok, hs, hbody, hrest⟩

end RequestMsg

end SimpleHttpServer
