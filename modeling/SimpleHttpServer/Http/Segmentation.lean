import SimpleHttpServer.Http.Render

/-!
# Segmentation: feeding the parser a stream in chunks

`feed` is how the parser is used on a connection: append a chunk to the buffer, call
`parseRequest`, and stop at the first `false` or at `kGotAll`. In the line states it refines
`Lib.Scanner.feed` of `lineScanner`, so `Lib.Scanner.scan_feed` applies to it.

* `feed_refines`: the parser fed with chunks ends as the scanner fed with them does;
* `IsPostLine` is the grammar of the one kind of request line that leads to the body state
  (`isPostLine_of_processRequestLine`);
* **`feed_eq_parseRequest`**: for a stream that does not start with such a line, every
  segmentation ends as one call over the whole stream does.
-/

namespace SimpleHttpServer

open Lib Lib.Store Lib.Search

namespace HttpContext

/-- Append each chunk and call `parseRequest`, at the time that comes with the chunk, until a call
returns `false` or the parser has got all; also the chunks not fed. -/
def feed (c : HttpContext) (buf : ByteQueue) :
    List (Bytes × Timestamp) → Outcome (ParseVars × List (Bytes × Timestamp))
  | [] => .returns ({ hasMore := false, context := c, buf }, [])
  | (chunk, t) :: chunks =>
    match parseRequest c (buf.append chunk) t with
    | .returns v =>
      if v.ok && !v.context.gotAll then feed v.context v.buf chunks else .returns (v, chunks)
    | .faults f => .faults f
    | .diverges => .diverges

/-- The bytes of a list of chunks. -/
def bytesOf (chunks : List (Bytes × Timestamp)) : Bytes := (chunks.map Prod.fst).flatten

@[simp] theorem bytesOf_nil : bytesOf [] = [] := rfl

@[simp] theorem bytesOf_cons (chunk : Bytes) (t : Timestamp) (chunks : List (Bytes × Timestamp)) :
    bytesOf ((chunk, t) :: chunks) = chunk ++ bytesOf chunks := rfl

theorem bytesOf_append (xs ys : List (Bytes × Timestamp)) :
    bytesOf (xs ++ ys) = bytesOf xs ++ bytesOf ys := by
  simp [bytesOf]

theorem prefix_bytesOf_take (chunks : List (Bytes × Timestamp)) (k : Nat) :
    bytesOf (chunks.take k) <+: bytesOf chunks :=
  ⟨bytesOf (chunks.drop k), by rw [← bytesOf_append, List.take_append_drop]⟩

/-- A chunk after which the line states still wait. -/
theorem feed_cons_of_waits {c : HttpContext} (hc : c.state ≠ .kGotAll) {q : ByteQueue}
    {chunk : Bytes} (t : Timestamp) (chunks : List (Bytes × Timestamp))
    {r : Scanned UInt8 HttpContext (Except Fault Bool)}
    (hs : (lineScanner ⟨0⟩).scan c.untimed (q.append chunk).readable = r)
    (hv : r.verdict = none) :
    ∃ c' q', c'.untimed = r.state ∧ q'.readable = r.rest ∧
      feed c q ((chunk, t) :: chunks) = feed c' q' chunks := by
  have hl : r.state.inLines = true := by
    rw [← hs] at hv ⊢
    exact scan_waits_inLines ⟨0⟩ _ _ hv
  obtain ⟨v, hrun, hstate, hrest, -, hgo⟩ := parseRequest_lines hc (q.append chunk) t hs
    (by simp [hv]) (inLines_ne hl).1
  refine ⟨v.context, v.buf, hstate, hrest, ?_⟩
  rw [feed, hrun]
  simp only [hgo, hv, Option.isNone_none, if_true]

/-- A stream that starts with a rendered request waits until the head is complete. -/
theorem scan_waits_of_short (r : RequestMsg) {d tail : Bytes} (hpre : d <+: r.head ++ tail)
    (hlt : d.length < r.head.length) : ((lineScanner ⟨0⟩).scan {} d).verdict = none := by
  obtain ⟨w, hw⟩ := List.prefix_of_prefix_length_le hpre (List.prefix_append r.head tail)
    (Nat.le_of_lt hlt)
  have hrest : ((lineScanner ⟨0⟩).scan {} (d ++ w)).rest = [] := by
    have h := r.scan_head ⟨0⟩ []
    rw [List.append_nil] at h
    rw [hw, h]
  have hne : w ≠ [] := by
    rintro rfl
    rw [List.append_nil] at hw
    exact absurd hlt (by rw [hw]; exact Nat.lt_irrefl _)
  exact Scanner.scan_waits_of_append hrest hne

/-- **Feeding the parser refines feeding the scanner**, unless that ends in a fault or at a body. -/
theorem feed_refines : ∀ (chunks : List (Bytes × Timestamp)) {c : HttpContext} {q : ByteQueue}
    {r : Scanned UInt8 HttpContext (Except Fault Bool)} {unfed : List Bytes},
    c.state ≠ .kGotAll →
    (lineScanner ⟨0⟩).feed c.untimed q.readable (chunks.map Prod.fst) = (r, unfed) →
    (∀ f, r.verdict ≠ some (.error f)) → r.state.state ≠ .kExpectBody →
    ∃ v rest, feed c q chunks = .returns (v, rest) ∧ v.context.untimed = r.state ∧
      v.buf.readable = r.rest ∧ (v.ok = false ↔ r.verdict = some (.ok false)) ∧
      rest.map Prod.fst = unfed
  | [], c, q, r, unfed, _, hfeed, _, _ => by
    cases hfeed
    exact ⟨_, _, rfl, rfl, rfl, by simp, rfl⟩
  | (chunk, t) :: chunks, c, q, r, unfed, hc, hfeed, hf, hb => by
    rw [List.map_cons, Scanner.feed, ← ByteQueue.readable_append] at hfeed
    generalize hs : (lineScanner ⟨0⟩).scan c.untimed (q.append chunk).readable = s at hfeed
    cases hv : s.verdict with
    | none =>
      have hl : s.state.inLines = true := by
        rw [← hs] at hv ⊢
        exact scan_waits_inLines ⟨0⟩ _ _ hv
      obtain ⟨c', q', hstate, hrest, hcons⟩ := feed_cons_of_waits hc t chunks hs hv
      simp only [hv, ← hstate, ← hrest] at hfeed
      have hg : c'.state ≠ .kGotAll := by
        rw [← hstate] at hl
        exact (inLines_ne hl).2
      obtain ⟨w, rest, hw⟩ := feed_refines chunks hg hfeed hf hb
      exact ⟨w, rest, hcons.trans hw.1, hw.2⟩
    | some x =>
      simp only [hv] at hfeed
      cases hfeed
      obtain ⟨v, hrun, hstate, hrest, hok, hgo⟩ :=
        parseRequest_lines hc (q.append chunk) t hs hf hb
      refine ⟨v, chunks, ?_, hstate, hrest, hok, rfl⟩
      rw [feed, hrun]
      simp only [hgo, hv, Option.isNone_some, Bool.false_eq_true, if_false]

/-! ## The request lines that lead to a body -/

/-- `POST target HTTP/1.0` or `POST target HTTP/1.1`. -/
def IsPostLine (line : Bytes) : Prop :=
  ∃ target version, 32 ∉ target ∧ version ≠ .kUnknown ∧
    line = ascii "POST" ++ 32 :: (target ++ 32 :: versionString version)

/-- The line in front of the first CRLF. -/
def firstLine (s : Bytes) : Option Bytes := (search Buffer.kCRLF s).map s.take

theorem methodOf_eq_kPost {m : Bytes} (h : HttpRequest.methodOf m = .kPost) : m = ascii "POST" := by
  unfold HttpRequest.methodOf at h
  repeat' split at h
  all_goals first | assumption | cases h

theorem processTarget_keeps (c : HttpContext) (target : Bytes) :
    (c.processTarget target).state = c.state ∧
      (c.processTarget target).request.method = c.request.method := by
  unfold processTarget
  split <;> exact ⟨rfl, rfl⟩

theorem processVersion_keeps (c : HttpContext) (text : Bytes) :
    (c.processVersion text).2.state = c.state ∧
      (c.processVersion text).2.request.method = c.request.method := by
  unfold processVersion
  split
  · split
    · exact ⟨rfl, rfl⟩
    · split <;> exact ⟨rfl, rfl⟩
  · exact ⟨rfl, rfl⟩

theorem versionString_of_processVersion {c : HttpContext} {text : Bytes}
    (h : (c.processVersion text).1 = true) : ∃ v, v ≠ .kUnknown ∧ text = versionString v := by
  unfold processVersion at h
  split at h
  · rename_i htext
    have happ := List.take_append_drop 7 text
    rw [htext.2] at happ
    split at h
    · rename_i hlast
      exact ⟨.kHttp11, by decide, by rw [← happ, hlast]; rfl⟩
    · split at h
      · rename_i hlast
        exact ⟨.kHttp10, by decide, by rw [← happ, hlast]; rfl⟩
      · cases h
  · cases h

/-- A request line accepted as a POST is one. -/
theorem isPostLine_of_processRequestLine {c c' : HttpContext} {line : Bytes}
    (h : c.processRequestLine line = .ok (true, c')) (hm : c'.request.method = .kPost) :
    IsPostLine line := by
  unfold processRequestLine HttpRequest.setMethod at h
  split at h
  · cases h
  · rename_i method sp afterMethod hb
    split at h
    · cases h
    · cases h
    · rename_i request hset
      split at h
      · cases h
      · rename_i target sp' version hb'
        have hend := Except.ok.inj h
        obtain ⟨v, hv, hversion⟩ := versionString_of_processVersion (congrArg Prod.fst hend)
        have hmethod := (processVersion_keeps (processTarget { c with request } target) version).2
        rw [hend, hm, (processTarget_keeps { c with request } target).2] at hmethod
        split at hset
        · obtain ⟨-, rfl⟩ := Prod.mk.inj (Except.ok.inj hset)
          refine ⟨target, v, ?_, hv, ?_⟩
          · have hnot := not_mem_breakAt_fst 32 afterMethod
            rwa [hb'] at hnot
          · have happ := breakAt_append 32 line
            have happ' := breakAt_append 32 afterMethod
            rw [hb] at happ
            rw [hb'] at happ'
            rw [← happ, ← happ', breakAt_snd_cons (congrArg Prod.snd hb),
              breakAt_snd_cons (congrArg Prod.snd hb'), methodOf_eq_kPost hmethod.symm, hversion]
        · cases hset

/-! ## Scans that start fresh -/

/-- `setMethod` will find `method_ == kInvalid`: either it is, or the request line is done. -/
def MethodClear (c : HttpContext) : Prop :=
  c.state = .kExpectRequestLine → c.request.method = .kInvalid

theorem processRequestLine_ne_error {c : HttpContext} (h : c.request.method = .kInvalid)
    (line : Bytes) (f : Fault) : c.processRequestLine line ≠ .error f := by
  intro he
  unfold processRequestLine at he
  split at he
  · cases he
  · split at he
    · rename_i hset
      rw [HttpRequest.setMethod, if_pos h] at hset
      cases hset
    · cases he
    · split at he <;> cases he

theorem processRequestLine_state {c c' : HttpContext} {line : Bytes} {b : Bool}
    (h : c.processRequestLine line = .ok (b, c')) : c'.state = c.state := by
  unfold processRequestLine at h
  split at h
  · cases h
    rfl
  · split at h
    · cases h
    · cases h
      rfl
    · split at h
      · cases h
        rfl
      · rename_i request _ _ target _ version _
        have hstate := (processVersion_keeps (processTarget { c with request } target) version).1
        rwa [Except.ok.inj h, (processTarget_keeps { c with request } target).1] at hstate

theorem lineMove_faults {t : Timestamp} {c c' : HttpContext} {xs : Bytes} {f : Fault} {n : Nat}
    (h : lineMove t c xs = .halt (.error f) c' n) :
    c.state = .kExpectRequestLine ∧ ∃ line, c.processRequestLine line = .error f := by
  unfold lineMove onLine at h
  split at h
  · split at h
    · cases h
    · split at h
      · rename_i hs
        split at h
        · rename_i hp
          cases h
          exact ⟨hs, _, hp⟩
        · cases h
        · cases h
      · split at h <;> cases h
  · cases h

/-- A scan that starts with the method clear does not fault. -/
theorem scan_ne_error (t : Timestamp) (c : HttpContext) (xs : Bytes) (hc : c.MethodClear)
    (f : Fault) : ((lineScanner t).scan c xs).verdict ≠ some (.error f) := by
  induction c, xs using (lineScanner t).scan_induction with
  | wait c xs h => rw [Scanner.scan_wait h]; exact fun e => by cases e
  | advance c xs c' n h ih =>
    rw [Scanner.scan_advance h]
    refine ih fun hs => ?_
    rw [(lineMove_advances h).2] at hs
    cases hs
  | halt c xs r c' n h =>
    rw [Scanner.scan_halt h]
    intro e
    obtain rfl : r = .error f := Option.some.inj e
    obtain ⟨hs, line, hline⟩ := lineMove_faults h
    exact processRequestLine_ne_error (hc hs) line f hline

/-- A scan that waits leaves the method clear. -/
theorem scan_waits_clear (t : Timestamp) (c : HttpContext) (xs : Bytes) (hc : c.MethodClear)
    (h : ((lineScanner t).scan c xs).verdict = none) :
    ((lineScanner t).scan c xs).state.MethodClear := by
  induction c, xs using (lineScanner t).scan_induction with
  | wait c xs hm => rw [Scanner.scan_wait hm]; exact hc
  | advance c xs c' n hm ih =>
    rw [Scanner.scan_advance hm] at h ⊢
    refine ih (fun hs => ?_) h
    rw [(lineMove_advances hm).2] at hs
    cases hs
  | halt c xs r c' n hm => rw [Scanner.scan_halt hm] at h; cases h

/-- In the header state, without a POST, a scan does not get to a body. -/
theorem scan_headers_ne_body (t : Timestamp) (c : HttpContext) (xs : Bytes)
    (hs : c.state = .kExpectHeaders) (hm : c.request.method ≠ .kPost) :
    ((lineScanner t).scan c xs).state.state ≠ .kExpectBody := by
  induction c, xs using (lineScanner t).scan_induction with
  | wait c xs h => rw [Scanner.scan_wait h]; simp [hs]
  | advance c xs c' n h ih =>
    rw [Scanner.scan_advance h]
    refine ih (lineMove_advances h).2 ?_
    replace h : lineMove t c xs = .advance c' n := h
    simp only [lineMove, onLine, hs, reduceCtorEq, if_false] at h
    split at h
    · split at h
      · cases h
      · split at h <;> cases h
        exact hm
    · cases h
  | halt c xs r c' n h =>
    rw [Scanner.scan_halt h]
    replace h : lineMove t c xs = .halt r c' n := h
    simp only [lineMove, onLine, hs, reduceCtorEq, if_false] at h
    split at h
    · split at h
      · cases h
      · split at h <;> cases h
        exact fun e => by cases e
    · cases h
      simp [hs]

/-- Nor does a scan of a stream that does not start with a POST request line. -/
theorem scan_ne_body (t : Timestamp) (xs : Bytes)
    (h : ∀ line, firstLine xs = some line → ¬ IsPostLine line) :
    ((lineScanner t).scan {} xs).state.state ≠ .kExpectBody := by
  cases hn : search Buffer.kCRLF xs with
  | none =>
    have hm : lineMove t {} xs = .wait := by simp [lineMove, inLines, hn]
    rw [Scanner.scan_wait hm]
    exact fun e => by cases e
  | some n =>
    have hm : lineMove t {} xs = onLine t {} (xs.take n) := by simp [lineMove, inLines, hn]
    simp only [onLine, if_true] at hm
    cases hp : processRequestLine {} (xs.take n) with
    | error f => exact absurd hp (processRequestLine_ne_error rfl _ f)
    | ok r =>
      obtain ⟨ok, c'⟩ := r
      rw [hp] at hm
      cases ok with
      | false =>
        rw [Scanner.scan_halt hm, processRequestLine_state hp]
        exact fun e => by cases e
      | true =>
        have hpost : c'.request.method ≠ .kPost := fun hmeth =>
          h _ (by rw [firstLine, hn]; rfl) (isPostLine_of_processRequestLine hp hmeth)
        rw [Scanner.scan_advance hm]
        exact scan_headers_ne_body t _ _ rfl hpost

/-! ## Segmentation does not matter -/

/-- **Feeding the chunks of a stream ends as one call over the stream does**: with the same result
and the same context but for `receiveTime`, and with the same bytes left, unread or unfed. -/
theorem feed_eq_parseRequest {s : Bytes} (chunks : List (Bytes × Timestamp)) (t : Timestamp)
    (q₀ q : ByteQueue) (hchunks : bytesOf chunks = s) (h₀ : q₀.readable = [])
    (hq : q.readable = s) (hpost : ∀ line, firstLine s = some line → ¬ IsPostLine line) :
    ∃ v rest w, feed {} q₀ chunks = .returns (v, rest) ∧ parseRequest {} q t = .returns w ∧
      v.ok = w.ok ∧ v.context.untimed = w.context.untimed ∧
      v.buf.readable ++ bytesOf rest = w.buf.readable := by
  have hscan := Scanner.scan_feed (chunks.map Prod.fst) (scan_nil ⟨0⟩)
  rw [List.nil_append, show (chunks.map Prod.fst).flatten = s from hchunks] at hscan
  have hfeed : (lineScanner ⟨0⟩).feed ({} : HttpContext).untimed q₀.readable
      (chunks.map Prod.fst) = (lineScanner ⟨0⟩).feed {} [] (chunks.map Prod.fst) := by
    rw [h₀]
    rfl
  generalize (lineScanner ⟨0⟩).feed {} [] (chunks.map Prod.fst) = r at hscan hfeed
  have hf : ∀ f, r.1.verdict ≠ some (.error f) := fun f => by
    have h := scan_ne_error ⟨0⟩ {} s (fun _ => rfl) f
    rwa [hscan] at h
  have hb : r.1.state.state ≠ .kExpectBody := by
    have h := scan_ne_body ⟨0⟩ s hpost
    rwa [hscan] at h
  obtain ⟨v, rest, hrun, hstate, hrest, hok, hunfed⟩ :=
    feed_refines chunks (by decide) hfeed hf hb
  obtain ⟨w, hrun', hstate', hrest', hok', -⟩ := parseRequest_lines (c := {}) (by decide) q t
    (r := r.1.extend r.2.flatten) (by rw [hq]; exact hscan) hf hb
  refine ⟨v, rest, w, hrun, hrun', ?_, hstate.trans hstate'.symm, ?_⟩
  · exact Bool.eq_iff_iff.mpr (by simpa using not_congr (hok.trans hok'.symm))
  · rw [hrest, hrest', bytesOf, hunfed]
    rfl

/-- A stream cut between CR and LF, with a byte behind the request. -/
theorem feed_eq_parseRequest_example :
    ∃ v rest w,
      feed {} (ByteQueue.new 0) [(ascii "GET / HTTP/1.1\r", ⟨1⟩), ([], ⟨2⟩), (ascii "\n\r", ⟨3⟩),
        (ascii "\nG", ⟨4⟩), (ascii "E", ⟨5⟩)] = .returns (v, rest) ∧
      parseRequest {} ((ByteQueue.new 64).append (ascii "GET / HTTP/1.1\r\n\r\nGE")) ⟨9⟩ =
        .returns w ∧
      v.context.untimed = w.context.untimed := by
  have hline : firstLine (ascii "GET / HTTP/1.1\r\n\r\nGE") = some (ascii "GET / HTTP/1.1") := by
    decide
  have hpost : ∀ line, firstLine (ascii "GET / HTTP/1.1\r\n\r\nGE") = some line →
      ¬ IsPostLine line := by
    rintro line hl ⟨target, version, -, -, rfl⟩
    have hhead := congrArg (Option.map List.head?) (hline.symm.trans hl)
    exact absurd hhead (by simp [ascii])
  obtain ⟨v, rest, w, hfeed, hparse, -, heq, -⟩ := feed_eq_parseRequest
    (s := ascii "GET / HTTP/1.1\r\n\r\nGE")
    [(ascii "GET / HTTP/1.1\r", ⟨1⟩), ([], ⟨2⟩), (ascii "\n\r", ⟨3⟩), (ascii "\nG", ⟨4⟩),
      (ascii "E", ⟨5⟩)] ⟨9⟩ (ByteQueue.new 0)
    ((ByteQueue.new 64).append (ascii "GET / HTTP/1.1\r\n\r\nGE"))
    (by decide) (by simp) (by simp) hpost
  exact ⟨v, rest, w, hfeed, hparse, heq⟩

end HttpContext

end SimpleHttpServer
