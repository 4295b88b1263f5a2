import SimpleHttpServer.Http.HeaderBlock

/-!
# `Content-Length`

The body state converts the header value with `std::stoi` and copies that many bytes from `peek()`
on; and only a POST gets there. `contentLengthOf` is the value header lines leave under
`Content-Length`, and `headOf` a request line with a header block.

* **`lengthChecked_iff`**: for a POST, a malformed length is reported as an error if and only if
  there is none to report: the value is a numeral, of no more bytes than the vector still holds;
* `not_lengthChecked_example`: a POST without the header;
* **`framedByLength_iff`**: the length frames the body if and only if there is no body, or the
  method is POST and the length an `int`;
* `not_framedByLength_example`: the body of a PUT.
-/

namespace SimpleHttpServer

open Lib Lib.Search Lib.Lines

/-- A line with a colon. -/
def hasColon (line : Bytes) : Bool := !colonless line

/-- The value stored under `Content-Length` by the lines that have a colon. -/
def contentLengthOf (lines : List Bytes) : Bytes :=
  (({} : HttpRequest).storeLines (lines.filter hasColon)).getHeader (ascii "Content-Length")

/-- A request line, header lines and the empty line. -/
def headOf (line : Bytes) (lines : List Bytes) : Bytes :=
  line ++ (Buffer.kCRLF ++ (writeLines lines ++ Buffer.kCRLF))

/-- A header line as it can stand in a block. -/
def IsHeaderLine (l : Bytes) : Prop := NoCRLF l ∧ 58 ∈ l

instance (l : Bytes) : Decidable (IsHeaderLine l) := inferInstanceAs (Decidable (_ ∧ _))

/-- The decimal numeral of an `int` that is not negative. -/
structure IsNumeral (value : Bytes) : Prop where
  nonempty : value ≠ []
  digits : ∀ d ∈ value, isdigit d = true
  isInt : digitsValue value < 2 ^ 31

/-- A header block, as the parser reads it. -/
theorem colonBlock_writeLines {lines : List Bytes} (h : ∀ l ∈ lines, IsHeaderLine l)
    (rest : Bytes) :
    colonBlock (writeLines lines ++ (Buffer.kCRLF ++ rest)) = ⟨lines, some [], rest⟩ :=
  block_written (by decide) (fun l hl => ⟨(h l hl).1, colonless_eq_false.mpr (h l hl).2⟩)
    (noCRLF_of_not_mem List.not_mem_nil) rfl rest

namespace HttpContext

/-- The headers stored do not depend on the request line. -/
theorem storeLines_headers (lines : List Bytes) : ∀ {req req' : HttpRequest},
    req.headers = req'.headers →
      (req.storeLines lines).headers = (req'.storeLines lines).headers := by
  induction lines with
  | nil => exact id
  | cons l ls ih =>
    intro req req' h
    refine ih ?_
    simp only [HttpRequest.storeLine, HttpRequest.addHeader, h]

theorem getHeader_requestOf (m : Method) (target : Bytes) (v : Version) (t : Timestamp)
    {lines : List Bytes} (hlines : ∀ l ∈ lines, colonless l = false) :
    ((requestOf m target v t).storeLines lines).getHeader (ascii "Content-Length") =
      contentLengthOf lines := by
  have hall : lines.filter hasColon = lines :=
    List.filter_eq_self.mpr fun l hl => by rw [hasColon, hlines l hl]; rfl
  have h : ((requestOf m target v t).storeLines lines).headers =
      (({} : HttpRequest).storeLines lines).headers := storeLines_headers lines rfl
  unfold contentLengthOf HttpRequest.getHeader
  rw [hall, h]

section

variable {line target : Bytes} {m : Method} {v : Version}

/-! ## Malformed lengths -/

/-- A malformed body length is a parse error, not a crash: the call returns, with `false` unless
the value is a numeral. -/
def LengthChecked (value : Bytes) (o : Outcome ParseVars) : Prop :=
  ∃ w, o = .returns w ∧ (¬ IsNumeral value → w.ok = false)

/-- The buffer behind the header lines that the parser reads. -/
def behindBlock (q : ByteQueue) (xs : Bytes) : ByteQueue :=
  q.consume (q.readableBytes - (colonBlock xs).rest.length)

/-- The body can be copied: the length the parser has is an `int` that is not negative, and the
vector has that many bytes behind the header lines. -/
def BodyFits (q : ByteQueue) (xs : Bytes) : Prop :=
  ∃ n : Nat, stoi (contentLengthOf (colonBlock xs).lines) = .ok n ∧
    (behindBlock q xs).peek + n ≤ q.buffer.length

/-- A complete header block ends for the parser too. -/
theorem colonBlock_last {xs : Bytes} (hend : (headerBlock xs).last ≠ none) :
    (colonBlock xs).last.isSome = true := by
  refine block_last_mono (fun l hempty => ?_) xs (Option.isSome_iff_ne_none.mpr hend)
  rw [List.isEmpty_iff.mp hempty]
  rfl

/-- For a POST, a call over a complete header block is the body state behind it. -/
theorem parseRequest_post (h : RequestLineOf line .kPost target v) (hl : NoCRLF line)
    {q : ByteQueue} {xs : Bytes} (hq : q.readable = line ++ (Buffer.kCRLF ++ xs))
    (hend : (colonBlock xs).last.isSome = true) (t : Timestamp) :
    parseRequest {} q t = .ofExcept (parseIter t
      { context := ⟨.kExpectBody, (requestOf .kPost target v t).storeLines (colonBlock xs).lines⟩
        buf := behindBlock q xs }) := by
  obtain ⟨last, hlast⟩ := Option.isSome_iff_exists.mp hend
  rw [parseRequest_line h hl hq t, scannedBlock, hlast]
  simp only [finish, afterHeaders, requestOf, lineParts, HttpRequest.setReceiveTime, if_true]
  rfl

/-- The body state behind a header block succeeds exactly if the body can be copied. -/
theorem parseIter_fits (target : Bytes) (v : Version) (q : ByteQueue) (xs : Bytes)
    (t : Timestamp) :
    (∃ w, parseIter t
        { context := ⟨.kExpectBody, (requestOf .kPost target v t).storeLines (colonBlock xs).lines⟩
          buf := behindBlock q xs } = .ok w) ↔ BodyFits q xs := by
  rw [parseIter_body_iff t rfl, getHeader_requestOf _ _ _ _ (stop_of_mem_lines xs), BodyFits,
    show (behindBlock q xs).buffer = q.buffer from q.buffer_consume _]

/-- The body state never reports an error. -/
theorem isNumeral_of_lengthChecked (h : RequestLineOf line .kPost target v) (hl : NoCRLF line)
    {q : ByteQueue} {xs : Bytes} (hq : q.readable = line ++ (Buffer.kCRLF ++ xs))
    (hend : (headerBlock xs).last ≠ none) {t : Timestamp} {value : Bytes}
    (hc : LengthChecked value (parseRequest {} q t)) : IsNumeral value ∧ BodyFits q xs := by
  obtain ⟨w, hw, hbad⟩ := hc
  rw [parseRequest_post h hl hq (colonBlock_last hend) t] at hw
  cases hi : parseIter t
      { context := ⟨.kExpectBody, (requestOf .kPost target v t).storeLines (colonBlock xs).lines⟩
        buf := behindBlock q xs } with
  | error f =>
    rw [hi] at hw
    cases hw
  | ok w' =>
    rw [hi] at hw
    obtain rfl := Outcome.returns.inj hw
    refine ⟨?_, (parseIter_fits target v q xs t).mp ⟨w', hi⟩⟩
    by_contra hno
    have hok := (parseIter_body_ok rfl hi).2
    rw [hbad hno] at hok
    cases hok

/-- **A malformed body length of a POST is a parse error and not a crash if and only if** there is
none: the value of `Content-Length` is the numeral of an `int` that is not negative, and the body
can be copied. -/
theorem lengthChecked_iff (h : RequestLineOf line .kPost target v) (hl : NoCRLF line)
    {q : ByteQueue} {xs : Bytes} (hq : q.readable = line ++ (Buffer.kCRLF ++ xs))
    (hend : (headerBlock xs).last ≠ none) (t : Timestamp) :
    LengthChecked (contentLengthOf (headerBlock xs).lines) (parseRequest {} q t) ↔
      IsNumeral (contentLengthOf (headerBlock xs).lines) ∧ BodyFits q xs := by
  constructor
  · exact isNumeral_of_lengthChecked h hl hq hend
  · rintro ⟨hnum, hfits⟩
    obtain ⟨w, hw⟩ := (parseIter_fits target v q xs t).mpr hfits
    refine ⟨w, ?_, fun hno => absurd hnum hno⟩
    rw [parseRequest_post h hl hq (colonBlock_last hend) t, hw]
    rfl

/-- A length of two, with both bytes and a third behind it. -/
theorem lengthChecked_iff_example :
    LengthChecked (contentLengthOf [ascii "Content-Length: 2"])
      (parseRequest {} ((ByteQueue.new 64).append
        (ascii "POST /login HTTP/1.1\r\nContent-Length: 2\r\n\r\nhi!")) ⟨7⟩) := by
  have hline : RequestLineOf (ascii "POST /login HTTP/1.1") .kPost (ascii "/login") .kHttp11 := by
    decide
  have hblock : headerBlock (ascii "Content-Length: 2\r\n\r\nhi!") =
      ⟨[ascii "Content-Length: 2"], some [], ascii "hi!"⟩ :=
    @headerBlock_writeLines [ascii "Content-Length: 2"] (by decide) (ascii "hi!")
  have hcolon : colonBlock (ascii "Content-Length: 2\r\n\r\nhi!") =
      ⟨[ascii "Content-Length: 2"], some [], ascii "hi!"⟩ :=
    @colonBlock_writeLines [ascii "Content-Length: 2"] (by decide) (ascii "hi!")
  have hq : ((ByteQueue.new 64).append
        (ascii "POST /login HTTP/1.1\r\nContent-Length: 2\r\n\r\nhi!")).readable =
      ascii "POST /login HTTP/1.1" ++
        (Buffer.kCRLF ++ ascii "Content-Length: 2\r\n\r\nhi!") := ByteQueue.readable_append_new _ _
  have hend : (headerBlock (ascii "Content-Length: 2\r\n\r\nhi!")).last ≠ none := by
    rw [hblock]
    exact Option.some_ne_none _
  have hiff := lengthChecked_iff hline (by decide) hq hend ⟨7⟩
  rw [hblock] at hiff
  refine hiff.mpr ⟨⟨by decide +kernel, by decide +kernel, by decide +kernel⟩, 2, ?_, ?_⟩
  · rw [hcolon]
    decide +kernel
  · rw [behindBlock, hcolon]
    decide +kernel

/-- Without the header, `stoi` throws. -/
theorem not_lengthChecked_example :
    ∃ (line target xs : Bytes) (v : Version) (q : ByteQueue) (t : Timestamp),
      RequestLineOf line .kPost target v ∧ NoCRLF line ∧
      q.readable = line ++ (Buffer.kCRLF ++ xs) ∧ (headerBlock xs).last ≠ none ∧
      ¬ LengthChecked (contentLengthOf (headerBlock xs).lines) (parseRequest {} q t) := by
  have hline : RequestLineOf (ascii "POST /login HTTP/1.1") .kPost (ascii "/login") .kHttp11 := by
    decide
  have hblock : headerBlock (ascii "\r\n") = ⟨[], some [], []⟩ :=
    @headerBlock_writeLines [] (by decide) []
  have hend : (headerBlock (ascii "\r\n")).last ≠ none := by
    rw [hblock]
    exact Option.some_ne_none _
  have hq : ((ByteQueue.new 64).append (ascii "POST /login HTTP/1.1\r\n\r\n")).readable =
      ascii "POST /login HTTP/1.1" ++ (Buffer.kCRLF ++ ascii "\r\n") :=
    ByteQueue.readable_append_new _ _
  refine ⟨_, _, _, _, _, ⟨7⟩, hline, by decide, hq, hend, fun hc => ?_⟩
  obtain ⟨hnum, -⟩ := isNumeral_of_lengthChecked hline (by decide) hq hend hc
  rw [hblock] at hnum
  exact hnum.nonempty (by decide +kernel)

/-! ## Bodies of other methods -/

/-- The header lines announce the length of the body. -/
structure Announces (lines : List Bytes) (body : Bytes) : Prop where
  nonempty : contentLengthOf lines ≠ []
  digits : ∀ d ∈ contentLengthOf lines, isdigit d = true
  value : digitsValue (contentLengthOf lines) = body.length

/-- The request is complete, and exactly `rest` is left for the next one. -/
def FramedByLength (rest : Bytes) (o : Outcome ParseVars) : Prop :=
  ∃ w, o = .returns w ∧ w.ok = true ∧ w.context.state = .kGotAll ∧ w.buf.readable = rest

/-- A call over a head and what follows it. -/
theorem parseRequest_head (h : RequestLineOf line m target v) (hl : NoCRLF line)
    {lines : List Bytes} (hlines : ∀ l ∈ lines, IsHeaderLine l) {q : ByteQueue} {rest : Bytes}
    (hq : q.readable = headOf line lines ++ rest) (t : Timestamp) :
    parseRequest {} q t =
      finish t ⟨some (.ok true),
          ⟨afterHeaders m, (requestOf m target v t).storeLines lines⟩, rest⟩
        (q.consume (headOf line lines).length) := by
  have hq' : q.readable =
      line ++ (Buffer.kCRLF ++ (writeLines lines ++ (Buffer.kCRLF ++ rest))) := by
    rw [hq, headOf]
    simp only [List.append_assoc]
  have hblock := colonBlock_writeLines hlines rest
  have hlen : q.readableBytes - rest.length = (headOf line lines).length := by
    rw [← q.length_readable, hq, List.length_append, Nat.add_sub_cancel]
  have hrun := parseRequest_line h hl hq' t
  rw [hblock] at hrun
  simp only [hlen] at hrun
  exact hrun

/-- What is left behind the head. -/
theorem readable_behind_head {lines : List Bytes} {q : ByteQueue} {rest : Bytes}
    (hq : q.readable = headOf line lines ++ rest) :
    (q.consume (headOf line lines).length).readable = rest := by
  rw [ByteQueue.readable_consume, hq, List.drop_left]

/-- The body of another method than POST is left in the buffer. -/
theorem body_eq_nil_of_framed (h : RequestLineOf line m target v) (hl : NoCRLF line)
    {lines : List Bytes} (hlines : ∀ l ∈ lines, IsHeaderLine l) (hm : m ≠ .kPost)
    {q : ByteQueue} {body rest : Bytes} (hq : q.readable = headOf line lines ++ (body ++ rest))
    {t : Timestamp} (hf : FramedByLength rest (parseRequest {} q t)) : body = [] := by
  obtain ⟨w, hw, -, -, hrest⟩ := hf
  rw [parseRequest_head h hl hlines hq t] at hw
  simp only [finish, afterHeaders, hm, if_false, reduceCtorEq] at hw
  obtain rfl := Outcome.returns.inj hw
  rw [readable_behind_head hq] at hrest
  exact List.self_eq_append_left.mp hrest.symm

/-- **`Content-Length` frames the request if and only if** there is no body, or the method is POST
and the length an `int`. -/
theorem framedByLength_iff (h : RequestLineOf line m target v) (hl : NoCRLF line)
    {lines : List Bytes} (hlines : ∀ l ∈ lines, IsHeaderLine l) {q : ByteQueue} {body rest : Bytes}
    (hbody : Announces lines body) (hq : q.readable = headOf line lines ++ (body ++ rest))
    (t : Timestamp) :
    FramedByLength rest (parseRequest {} q t) ↔
      body = [] ∨ m = .kPost ∧ body.length < 2 ^ 31 := by
  by_cases hm : m = .kPost
  · subst hm
    have hstoi := stoi_digits hbody.nonempty hbody.digits
    have hlength := getHeader_requestOf .kPost target v t fun l hm =>
      colonless_eq_false.mpr (hlines l hm).2
    rw [hbody.value, ← hlength] at hstoi
    have hrun := parseRequest_head h hl hlines hq t
    simp only [finish, afterHeaders, if_true] at hrun
    rw [hrun]
    by_cases hlt : body.length < 2 ^ 31
    · refine iff_of_true ?_ (Or.inr ⟨rfl, hlt⟩)
      rw [if_pos hlt] at hstoi
      have hle : body.length ≤ (q.consume (headOf line lines).length).readableBytes := by
        rw [← ByteQueue.length_readable, readable_behind_head hq, List.length_append]
        exact Nat.le_add_right _ _
      rw [parseIter_body t rfl hstoi hle]
      refine ⟨_, rfl, rfl, rfl, ?_⟩
      simp only
      rw [ByteQueue.readable_retrieve, readable_behind_head hq, List.drop_left]
    · refine iff_of_false ?_ ?_
      · rintro ⟨w, hw, -⟩
        rw [if_neg hlt] at hstoi
        simp only [parseIter, hstoi] at hw
        cases hw
      · rintro (rfl | ⟨-, hlt'⟩)
        · exact hlt (by decide)
        · exact hlt hlt'
  · constructor
    · intro hf
      exact Or.inl (body_eq_nil_of_framed h hl hlines hm hq hf)
    · rintro (rfl | ⟨hm', -⟩)
      · rw [parseRequest_head h hl hlines hq t]
        simp only [finish, afterHeaders, hm, if_false, reduceCtorEq]
        exact ⟨_, rfl, rfl, rfl, readable_behind_head hq⟩
      · exact absurd hm' hm

/-- A POST whose body is there. -/
theorem framedByLength_iff_example :
    FramedByLength (ascii "GET")
      (parseRequest {} ((ByteQueue.new 64).append
        (headOf (ascii "POST /login HTTP/1.1") [ascii "Content-Length: 2"] ++
          (ascii "hi" ++ ascii "GET"))) ⟨7⟩) := by
  have hline : RequestLineOf (ascii "POST /login HTTP/1.1") .kPost (ascii "/login") .kHttp11 := by
    decide
  have hlines : ∀ l ∈ [ascii "Content-Length: 2"], IsHeaderLine l := by decide
  have hbody : Announces [ascii "Content-Length: 2"] (ascii "hi") :=
    ⟨by decide +kernel, by decide +kernel, by decide +kernel⟩
  exact (framedByLength_iff hline (by decide) hlines hbody (ByteQueue.readable_append_new _ _)
    ⟨7⟩).mpr (Or.inr ⟨rfl, by decide⟩)

/-- The body of a PUT is left for the next request line. -/
theorem not_framedByLength_example :
    ∃ (line target : Bytes) (m : Method) (v : Version) (lines : List Bytes) (body rest : Bytes)
      (q : ByteQueue) (t : Timestamp),
      RequestLineOf line m target v ∧ NoCRLF line ∧ (∀ l ∈ lines, IsHeaderLine l) ∧
      Announces lines body ∧ q.readable = headOf line lines ++ (body ++ rest) ∧
      ¬ FramedByLength rest (parseRequest {} q t) := by
  have hline : RequestLineOf (ascii "PUT /x HTTP/1.1") .kPut (ascii "/x") .kHttp11 := by
    decide
  have hlines : ∀ l ∈ [ascii "Content-Length: 2"], IsHeaderLine l := by decide
  have hq := ByteQueue.readable_append_new 64
  refine ⟨_, _, _, _, _, ascii "hi", [], _, ⟨7⟩, hline, by decide, hlines,
    ⟨by decide +kernel, by decide +kernel, by decide +kernel⟩, hq _, fun hf => ?_⟩
  exact absurd (body_eq_nil_of_framed hline (by decide) hlines (by decide) (hq _) hf) (by decide)

end

end HttpContext

end SimpleHttpServer
