import SimpleHttpServer.Http.RequestLine
import SimpleHttpServer.Lib.Lines

/-!
# The header block

The loop reads header lines until one has no colon, and takes that line for the empty line at the
end of the headers. `colonBlock` is the block it reads, `headerBlock` the one that ends at the first
empty line.

* `scan_headers`: the scan of a header block, for every stream;
* `parseRequest_line`: a call over a valid request line and any bytes behind it;
* **`endsAtEmptyLine_iff`**: the headers end exactly at the first empty line if and only if every
  line before it has a colon;
* `not_endsAtEmptyLine_example`: a line without one, taken for the end.
-/

namespace SimpleHttpServer

open Lib Lib.Search Lib.Lines

/-- A line without a colon. -/
def colonless (line : Bytes) : Bool := !line.contains 58

theorem colonless_eq_false {line : Bytes} : colonless line = false ↔ 58 ∈ line := by
  simp [colonless]

theorem colonless_eq_true {line : Bytes} : colonless line = true ↔ 58 ∉ line := by
  simp [colonless]

/-- The lines up to the first one without a colon. -/
abbrev colonBlock (xs : Bytes) : Block UInt8 := block 13 10 colonless xs

/-- The lines up to the first empty one. -/
abbrev headerBlock (xs : Bytes) : Block UInt8 := block 13 10 List.isEmpty xs

/-- Lines with their CRLFs. -/
abbrev writeLines (ls : List Bytes) : Bytes := written 13 10 ls

namespace HttpRequest

/-- `addHeader` of a line with a colon. -/
def storeLine (req : HttpRequest) (line : Bytes) : HttpRequest :=
  req.addHeader (breakAt 58 line).1 (breakAt 58 line).2.tail

/-- The fields of lines, stored in order. -/
def storeLines (req : HttpRequest) (lines : List Bytes) : HttpRequest := lines.foldl storeLine req

end HttpRequest

namespace HttpContext

/-- The state behind the header block. -/
def afterHeaders (m : Method) : HttpRequestParseState :=
  if m = .kPost then .kExpectBody else .kGotAll

theorem onLine_headers (t : Timestamp) (req : HttpRequest) (line : Bytes) :
    onLine t ⟨.kExpectHeaders, req⟩ line =
      if colonless line then .halt (.ok true) ⟨afterHeaders req.method, req⟩ (line.length + 2)
      else .advance ⟨.kExpectHeaders, req.storeLine line⟩ (line.length + 2) := by
  have hmem := @breakAt_snd_eq_nil UInt8 _ 58 line
  simp only [onLine, reduceCtorEq, if_false, HttpRequest.storeLine]
  rcases hb : breakAt 58 line with ⟨field, _ | ⟨colon, after⟩⟩
  · rw [hb] at hmem
    have hcolon : colonless line = true := colonless_eq_true.mpr (hmem.mp rfl)
    rw [hcolon]
    rfl
  · rw [hb] at hmem
    have hcolon : colonless line = false := by
      by_contra hne
      exact absurd (hmem.mpr (colonless_eq_true.mp (by simpa using hne))) (by simp)
    rw [hcolon]
    rfl

/-- How a scan of a block of header lines ends. -/
def scannedBlock (req : HttpRequest) (r : Block UInt8) :
    Scanned UInt8 HttpContext (Except Fault Bool) :=
  match r.last with
  | none => ⟨none, ⟨.kExpectHeaders, req.storeLines r.lines⟩, r.rest⟩
  | some _ => ⟨some (.ok true), ⟨afterHeaders req.method, req.storeLines r.lines⟩, r.rest⟩

@[simp] theorem scannedBlock_rest (req : HttpRequest) (r : Block UInt8) :
    (scannedBlock req r).rest = r.rest := by
  obtain ⟨lines, _ | last, rest⟩ := r <;> rfl

theorem scannedBlock_cons (req : HttpRequest) (line : Bytes) (r : Block UInt8) :
    scannedBlock (req.storeLine line) r = scannedBlock req (r.cons line) := by
  obtain ⟨lines, _ | last, rest⟩ := r <;> rfl

/-- **The header state reads lines up to the first one without a colon.** -/
theorem scan_headers (t : Timestamp) (xs : Bytes) : ∀ req : HttpRequest,
    (lineScanner t).scan ⟨.kExpectHeaders, req⟩ xs = scannedBlock req (colonBlock xs) := by
  have hmove : ∀ (req : HttpRequest) (ys : Bytes) (n : Nat),
      search [13, 10] ys = some n →
      lineMove t ⟨.kExpectHeaders, req⟩ ys = onLine t ⟨.kExpectHeaders, req⟩ (ys.take n) := by
    intro req ys n hn
    have hn' : search Buffer.kCRLF ys = some n := hn
    simp only [lineMove, inLines, hn', beq_self_eq_true, Bool.or_true, if_true]
  induction xs using block_induction (a := (13 : UInt8)) (b := 10) colonless with
  | waits xs h =>
    intro req
    have hm : lineMove t ⟨.kExpectHeaders, req⟩ xs = .wait := by
      have hn : search Buffer.kCRLF xs = none := h
      simp [lineMove, inLines, hn]
    rw [Scanner.scan_wait hm, colonBlock, block_waits h]
    rfl
  | stops xs n h hs =>
    intro req
    have hle : n ≤ xs.length := Nat.le_of_add_right_le (search_kCRLF_le h)
    have hm := hmove req xs n h
    rw [onLine_headers, if_pos hs, List.length_take, Nat.min_eq_left hle] at hm
    rw [Scanner.scan_halt hm, colonBlock, block_stops h hs]
    rfl
  | goesOn xs n h hs ih =>
    intro req
    have hle : n ≤ xs.length := Nat.le_of_add_right_le (search_kCRLF_le h)
    have hm := hmove req xs n h
    rw [onLine_headers, if_neg (by rw [hs]; exact Bool.false_ne_true), List.length_take,
      Nat.min_eq_left hle] at hm
    have hblock : colonBlock xs = (colonBlock (xs.drop (n + 2))).cons (xs.take n) :=
      block_goesOn h hs
    rw [Scanner.scan_advance hm, ih, hblock, scannedBlock_cons]

/-! ## A call over a request line and what follows -/

/-- An accepted request line is consumed. -/
theorem scan_accepted (t : Timestamp) {c c' : HttpContext} (hs : c.state = .kExpectRequestLine)
    {line : Bytes} (hl : NoCRLF line) (h : c.processRequestLine line = .ok (true, c'))
    (xs : Bytes) :
    (lineScanner t).scan c (line ++ (Buffer.kCRLF ++ xs)) =
      (lineScanner t).scan ⟨.kExpectHeaders, c'.request.setReceiveTime t⟩ xs := by
  have hmove : lineMove t c (line ++ (Buffer.kCRLF ++ xs)) =
      .advance ⟨.kExpectHeaders, c'.request.setReceiveTime t⟩ (line.length + 2) := by
    rw [RequestMsg.lineMove_line (by simp [inLines, hs]) hl]
    simp only [onLine, hs, if_true, h]
  rw [Scanner.scan_advance hmove, RequestMsg.drop_line]

/-- The request of a fresh context after a request line. -/
def requestOf (m : Method) (target : Bytes) (v : Version) (t : Timestamp) : HttpRequest :=
  (lineParts {} m target v).setReceiveTime t

/-- **A call over a valid request line and any bytes behind it**, by the block of lines the header
state takes from them. -/
theorem parseRequest_line {line target : Bytes} {m : Method} {v : Version}
    (h : RequestLineOf line m target v) (hl : NoCRLF line) {q : ByteQueue} {xs : Bytes}
    (hq : q.readable = line ++ (Buffer.kCRLF ++ xs)) (t : Timestamp) :
    parseRequest {} q t = finish t (scannedBlock (requestOf m target v t) (colonBlock xs))
      (q.consume (q.readableBytes - (colonBlock xs).rest.length)) := by
  have hscan : (lineScanner t).scan {} q.readable =
      scannedBlock (requestOf m target v t) (colonBlock xs) := by
    rw [hq, scan_accepted t rfl hl (processRequestLine_parts rfl rfl h), scan_headers]
    rfl
  rw [parseRequest_consume (by decide) q t hscan, scannedBlock_rest]

/-! ## The end of the headers -/

/-- What ending the headers exactly at the first empty line promises of a call over a request line
and `xs`; `req` is the request after the request line. -/
structure EndsAtEmptyLine (t : Timestamp) (req : HttpRequest) (xs : Bytes)
    (o : Outcome ParseVars) : Prop where
  /-- Without an empty line the parser waits for one, with every line stored. -/
  waits : (∀ l ∈ (headerBlock xs).lines, 58 ∈ l) → (headerBlock xs).last = none →
    ∃ v, o = .returns v ∧ v.ok = true ∧
      v.context = ⟨.kExpectHeaders, req.storeLines (headerBlock xs).lines⟩ ∧
      v.buf.readable = (headerBlock xs).rest
  /-- At the empty line every line is stored, and what follows is the body, or the rest. -/
  ends : (∀ l ∈ (headerBlock xs).lines, 58 ∈ l) → (headerBlock xs).last ≠ none →
    ∃ buf : ByteQueue, buf.readable = (headerBlock xs).rest ∧
      o = if req.method = .kPost then
          .ofExcept (parseIter t
            { context := ⟨.kExpectBody, req.storeLines (headerBlock xs).lines⟩, buf })
        else
          .returns
            { hasMore := false
              context := ⟨.kGotAll, req.storeLines (headerBlock xs).lines⟩
              buf }
  /-- A line in front of it that has no colon is an error, at the latest at the empty line. -/
  rejects : ∀ l ∈ (headerBlock xs).lines, 58 ∉ l →
    (∃ v, o = .returns v ∧ v.ok = false) ∨
      (headerBlock xs).last = none ∧ ∃ v, o = .returns v ∧ v.context.state = .kExpectHeaders

/-- Behind a header block a call has got all, or faults in the body. -/
theorem finish_afterHeaders {t : Timestamp} {req : HttpRequest} {r : Block UInt8}
    (hr : r.last.isSome = true) {buf : ByteQueue} {v : ParseVars}
    (h : finish t (scannedBlock req r) buf = .returns v) :
    v.ok = true ∧ v.context.state = .kGotAll := by
  obtain ⟨lines, _ | last, rest⟩ := r
  · cases hr
  · by_cases hp : req.method = .kPost
    · simp only [finish, scannedBlock, afterHeaders, hp, if_true] at h
      cases hi : parseIter t { context := ⟨.kExpectBody, req.storeLines lines⟩, buf } with
      | error f =>
        rw [hi] at h
        cases h
      | ok w =>
        rw [hi] at h
        obtain rfl := Outcome.returns.inj h
        obtain ⟨hgot, hok⟩ := parseIter_body_ok rfl hi
        exact ⟨hok, by simpa [gotAll] using hgot⟩
    · simp only [finish, scannedBlock, afterHeaders, hp, if_false, reduceCtorEq] at h
      cases h
      exact ⟨rfl, rfl⟩

/-- A line without a colon, in front of the first empty line, is taken for the end. -/
theorem colon_of_endsAtEmptyLine {line target : Bytes} {m : Method} {v : Version}
    (h : RequestLineOf line m target v) (hl : NoCRLF line) {q : ByteQueue} {xs : Bytes}
    (hq : q.readable = line ++ (Buffer.kCRLF ++ xs)) {t : Timestamp}
    (he : EndsAtEmptyLine t (requestOf m target v t) xs (parseRequest {} q t)) :
    ∀ l ∈ (headerBlock xs).lines, 58 ∈ l := by
  intro l hmem
  by_contra hno
  have hlast : (colonBlock xs).last.isSome = true :=
    block_last_of_exists xs ⟨l, hmem, colonless_eq_true.mpr hno⟩
  have hrun := parseRequest_line h hl hq t
  rcases he.rejects l hmem hno with ⟨w, hw, hok⟩ | ⟨-, w, hw, hs⟩
  · have hgot := finish_afterHeaders hlast (hrun.symm.trans hw)
    rw [hok] at hgot
    exact Bool.false_ne_true hgot.1
  · have hgot := finish_afterHeaders hlast (hrun.symm.trans hw)
    rw [hs] at hgot
    cases hgot.2

/-- What a call leaves is what its block leaves. -/
theorem readable_block {q : ByteQueue} {line xs : Bytes}
    (hq : q.readable = line ++ (Buffer.kCRLF ++ xs)) {rest : Bytes} (hrest : rest <:+ xs) :
    (q.consume (q.readableBytes - rest.length)).readable = rest := by
  have hsuffix : rest <:+ q.readable := by
    rw [hq, ← List.append_assoc]
    exact hrest.trans (List.suffix_append _ _)
  rw [ByteQueue.readable_consume, ← q.length_readable]
  exact (List.suffix_iff_eq_drop.mp hsuffix).symm

/-- **The headers end exactly at the first empty line if and only if every line before it has a
colon.** -/
theorem endsAtEmptyLine_iff {line target : Bytes} {m : Method} {v : Version}
    (h : RequestLineOf line m target v) (hl : NoCRLF line) {q : ByteQueue} {xs : Bytes}
    (hq : q.readable = line ++ (Buffer.kCRLF ++ xs)) (t : Timestamp) :
    EndsAtEmptyLine t (requestOf m target v t) xs (parseRequest {} q t) ↔
      ∀ l ∈ (headerBlock xs).lines, 58 ∈ l := by
  constructor
  · exact colon_of_endsAtEmptyLine h hl hq
  · intro hcolon
    have hblock : colonBlock xs = headerBlock xs := by
      refine block_eq_of_forall (fun l hempty => ?_) xs fun l hmem => ?_
      · rw [List.isEmpty_iff.mp hempty]
        rfl
      · exact colonless_eq_false.mpr (hcolon l hmem)
    have hrun := parseRequest_line h hl hq t
    rw [hblock] at hrun
    have hsuffix : (headerBlock xs).rest <:+ xs := block_rest_suffix xs
    have hreadable := readable_block hq hsuffix
    refine ⟨fun _ hnone => ?_, fun _ hsome => ?_, fun l hmem hno => absurd (hcolon l hmem) hno⟩
    · refine ⟨{ hasMore := false, context := _, buf := _ }, hrun.trans ?_, rfl, rfl, hreadable⟩
      rw [scannedBlock, hnone]
      rfl
    · refine ⟨_, hreadable, hrun.trans ?_⟩
      obtain ⟨last, hlast⟩ := Option.ne_none_iff_exists'.mp hsome
      rw [scannedBlock, hlast]
      by_cases hp : (requestOf m target v t).method = .kPost
      · simp only [finish, afterHeaders, hp, if_true]
      · simp only [finish, afterHeaders, hp, if_false, reduceCtorEq]

/-- A header block, read up to the first empty line. -/
theorem headerBlock_writeLines {ls : List Bytes} (h : ∀ l ∈ ls, NoCRLF l ∧ l ≠ [])
    (rest : Bytes) : headerBlock (writeLines ls ++ (Buffer.kCRLF ++ rest)) = ⟨ls, some [], rest⟩ :=
  block_written (by decide) (fun l hl => ⟨(h l hl).1, List.isEmpty_eq_false_iff.mpr (h l hl).2⟩)
    (noCRLF_of_not_mem List.not_mem_nil) rfl rest

/-- Two headers and the empty line behind them. -/
theorem endsAtEmptyLine_iff_example :
    EndsAtEmptyLine ⟨7⟩ (requestOf .kGet (ascii "/") .kHttp11 ⟨7⟩)
      (ascii "Host:x\r\nA: b\r\n\r\nGET")
      (parseRequest {} ((ByteQueue.new 64).append
        (ascii "GET / HTTP/1.1\r\nHost:x\r\nA: b\r\n\r\nGET")) ⟨7⟩) := by
  have hline : RequestLineOf (ascii "GET / HTTP/1.1") .kGet (ascii "/") .kHttp11 := by
    decide
  have hblock : headerBlock (ascii "Host:x\r\nA: b\r\n\r\nGET") =
      ⟨[ascii "Host:x", ascii "A: b"], some [], ascii "GET"⟩ :=
    @headerBlock_writeLines [ascii "Host:x", ascii "A: b"] (by decide) (ascii "GET")
  refine (endsAtEmptyLine_iff hline (by decide) ?_ ⟨7⟩).mpr ?_
  · exact ByteQueue.readable_append_new _ _
  · rw [hblock]
    decide

/-- A line without a colon is taken for the end of the headers: the request is accepted, and the
empty line is left for the next one. -/
theorem not_endsAtEmptyLine_example :
    ∃ (line target xs : Bytes) (m : Method) (v : Version) (q : ByteQueue) (t : Timestamp),
      RequestLineOf line m target v ∧ NoCRLF line ∧
      q.readable = line ++ (Buffer.kCRLF ++ xs) ∧
      ¬ EndsAtEmptyLine t (requestOf m target v t) xs (parseRequest {} q t) := by
  have hline : RequestLineOf (ascii "GET / HTTP/1.1") .kGet (ascii "/") .kHttp11 := by
    decide
  have hblock : headerBlock (ascii "Host\r\n\r\n") = ⟨[ascii "Host"], some [], []⟩ :=
    @headerBlock_writeLines [ascii "Host"] (by decide) []
  have hq : ((ByteQueue.new 64).append (ascii "GET / HTTP/1.1\r\nHost\r\n\r\n")).readable =
      ascii "GET / HTTP/1.1" ++ (Buffer.kCRLF ++ ascii "Host\r\n\r\n") :=
    ByteQueue.readable_append_new _ _
  refine ⟨_, _, _, _, _, _, ⟨7⟩, hline, by decide, hq, fun he => ?_⟩
  have hcolon := colon_of_endsAtEmptyLine hline (by decide) hq he
  rw [hblock] at hcolon
  exact absurd (hcolon _ List.mem_cons_self) (by decide)

end HttpContext

end SimpleHttpServer
