import SimpleHttpServer.Http.ContentLength
import SimpleHttpServer.Http.HttpServer

/-!
# The case of header names

The headers are a `std::map` with the names as they were sent, and the code looks for
`Content-Length` and `Connection` as it spells them: a name that is written differently is another
name. So two requests that differ in the case of their header names are treated alike as far as
these two names are not concerned.

* `SameFields`: header lines that differ only in the letter case of the names;
* `Alike`: the calls end alike, and `HttpServer::onRequest` makes the same decision to close;
* **`alike_iff`**: they do if and only if, for a POST, both or neither has `Content-Length` spelled
  so, and if the call returns, both or neither has `Connection`, or its value changes nothing;
* `not_alike_example`: both names in lower case.
-/

namespace SimpleHttpServer

open Lib Lib.Search Lib.Lines

/-! ## Header lines up to case -/

/-- `tolower` in the C locale. -/
def toLower (c : UInt8) : UInt8 := if 65 ≤ c && c ≤ 90 then c + 32 else c

/-- The name in lower case. -/
def lower (name : Bytes) : Bytes := name.map toLower

/-- The lines differ only in the letter case of the name. -/
structure SameField (h h' : HeaderLine) : Prop where
  name : lower h.name = lower h'.name
  padded : h.padded = h'.padded

theorem SameField.value {h h' : HeaderLine} (hs : SameField h h') : h.value = h'.value := by
  rw [← h.trim_padded, hs.padded, h'.trim_padded]

/-- The headers differ only in the letter case of their names. -/
abbrev SameFields (fields fields' : List HeaderLine) : Prop := List.Forall₂ SameField fields fields'

/-- No name is repeated, in whatever case. -/
def DistinctNames (fields : List HeaderLine) : Prop := (fields.map fun h => lower h.name).Nodup

/-- There is a header of exactly this name. -/
def Spelled (name : Bytes) (fields : List HeaderLine) : Prop := ∃ h ∈ fields, h.name = name

instance (name : Bytes) (fields : List HeaderLine) : Decidable (Spelled name fields) :=
  List.decidableBEx _ _

/-- `Content-Length`, in whatever case, is the length of the body. -/
def LengthIs (fields : List HeaderLine) (body : Bytes) : Prop :=
  ∀ h ∈ fields, lower h.name = lower (ascii "Content-Length") →
    h.value ≠ [] ∧ (∀ d ∈ h.value, isdigit d = true) ∧ digitsValue h.value = body.length

variable {fields fields' : List HeaderLine} {h h' : HeaderLine}

theorem SameFields.partner (hs : SameFields fields fields') (hmem : h ∈ fields) :
    ∃ h' ∈ fields', SameField h h' := by
  induction hs with
  | nil => exact absurd hmem List.not_mem_nil
  | cons hhead _ ih =>
    rcases List.mem_cons.mp hmem with rfl | hmem
    · exact ⟨_, List.mem_cons_self, hhead⟩
    · obtain ⟨h', hmem', hsame⟩ := ih hmem
      exact ⟨h', List.mem_cons_of_mem _ hmem', hsame⟩

theorem SameFields.symm (hs : SameFields fields fields') : SameFields fields' fields :=
  (hs.imp fun _ _ h => ⟨h.name.symm, h.padded.symm⟩).flip

theorem SameFields.lower_names (hs : SameFields fields fields') :
    fields.map (fun h => lower h.name) = fields'.map (fun h => lower h.name) := by
  induction hs with
  | nil => rfl
  | cons hhead _ ih => rw [List.map_cons, List.map_cons, hhead.name, ih]

theorem SameFields.distinct (hs : SameFields fields fields') (hd : DistinctNames fields) :
    DistinctNames fields' := by
  unfold DistinctNames
  rwa [← hs.lower_names]

theorem DistinctNames.eq (hd : DistinctNames fields) (hmem : h ∈ fields) (hmem' : h' ∈ fields)
    (hname : lower h.name = lower h'.name) : h = h' :=
  List.inj_on_of_nodup_map hd hmem hmem' hname

theorem LengthIs.congr {body : Bytes} (hs : SameFields fields fields')
    (hlength : LengthIs fields body) : LengthIs fields' body := by
  intro h' hmem' hname
  obtain ⟨h, hmem, hsame⟩ := hs.symm.partner hmem'
  rw [hsame.value]
  exact hlength h hmem (hsame.name.symm.trans hname)

/-! ## What is found -/

namespace HttpRequest

theorem storeLine_line (req : HttpRequest) (h : HeaderLine) :
    req.storeLine h.line = { req with headers := req.headers.insert h.name h.value } := by
  rw [storeLine, HeaderLine.line, breakAt_append_cons h.name_noColon, addHeader, List.tail_cons,
    h.trim_padded]

theorem getHeader_storeLine (req : HttpRequest) (h : HeaderLine) (name : Bytes) :
    (req.storeLine h.line).getHeader name =
      if h.name = name then h.value else req.getHeader name := by
  rw [storeLine_line, getHeader, getHeader, Std.ExtTreeMap.getElem?_insert]
  by_cases hname : h.name = name
  · rw [if_pos hname, if_pos (Std.LawfulEqCmp.compare_eq_iff_eq.mpr hname)]
    rfl
  · rw [if_neg hname, if_neg fun heq => hname (Std.LawfulEqCmp.compare_eq_iff_eq.mp heq)]

/-- Storing header lines changes nothing else. -/
theorem storeLines_eq : ∀ (lines : List Bytes) (req : HttpRequest),
    ∃ headers, req.storeLines lines = { req with headers }
  | [], req => ⟨req.headers, rfl⟩
  | line :: lines, req => storeLines_eq lines (req.storeLine line)

/-- A name that no line has is left as it is. -/
theorem getHeader_of_not_spelled {name : Bytes} : ∀ {fields : List HeaderLine} (req : HttpRequest),
    ¬ Spelled name fields →
    (req.storeLines (fields.map HeaderLine.line)).getHeader name = req.getHeader name
  | [], _, _ => rfl
  | h :: fields, req, hno => by
    have hrest : ¬ Spelled name fields := fun ⟨g, hmem, hg⟩ =>
      hno ⟨g, List.mem_cons_of_mem h hmem, hg⟩
    show ((req.storeLine h.line).storeLines (fields.map HeaderLine.line)).getHeader name = _
    rw [getHeader_of_not_spelled _ hrest, getHeader_storeLine,
      if_neg fun hname => hno ⟨h, List.mem_cons_self, hname⟩]

/-- A name that one line has gets the value of that line. -/
theorem getHeader_of_mem : ∀ {fields : List HeaderLine} (req : HttpRequest),
    DistinctNames fields → h ∈ fields →
    (req.storeLines (fields.map HeaderLine.line)).getHeader h.name = h.value
  | [], _, _, hmem => absurd hmem List.not_mem_nil
  | g :: fields, req, hd, hmem => by
    obtain ⟨hhead, hrest⟩ := List.nodup_cons.mp hd
    show ((req.storeLine g.line).storeLines (fields.map HeaderLine.line)).getHeader h.name = _
    rcases List.mem_cons.mp hmem with rfl | hmem
    · have hno : ¬ Spelled h.name fields := fun ⟨g, hmem, hg⟩ =>
        hhead (List.mem_map.mpr ⟨g, hmem, congrArg lower hg⟩)
      rw [getHeader_of_not_spelled _ hno, getHeader_storeLine, if_pos rfl]
    · exact getHeader_of_mem _ hrest hmem

/-- **Lines that differ in the case of the names give a name the same value**, if both or neither
spell it so. -/
theorem getHeader_congr (hs : SameFields fields fields') (hd : DistinctNames fields) {name : Bytes}
    (hspelled : Spelled name fields ↔ Spelled name fields') (req : HttpRequest) :
    (req.storeLines (fields.map HeaderLine.line)).getHeader name =
      (req.storeLines (fields'.map HeaderLine.line)).getHeader name := by
  by_cases hname : Spelled name fields
  · obtain ⟨h', hmem', rfl⟩ := hspelled.mp hname
    obtain ⟨h, hmem, hh⟩ := hname
    obtain ⟨g, hg, hsame⟩ := hs.partner hmem
    obtain rfl := (hs.distinct hd).eq hg hmem' (hsame.name.symm.trans (congrArg lower hh))
    rw [getHeader_of_mem req (hs.distinct hd) hmem', ← hsame.value, ← hh,
      getHeader_of_mem req hd hmem]
  · rw [getHeader_of_not_spelled req hname,
      getHeader_of_not_spelled req fun hname' => hname (hspelled.mpr hname')]

end HttpRequest

namespace HttpContext

/-! ## A call over a head and a body -/

/-- The parser gets behind the body: it has to find the length of a POST, and the length has to be
an `int`. -/
def Completes (m : Method) (fields : List HeaderLine) (body : Bytes) : Prop :=
  m = .kPost → Spelled (ascii "Content-Length") fields ∧ body.length < 2 ^ 31

/-- The request with the header lines stored. -/
def storedRequest (m : Method) (target : Bytes) (v : Version) (t : Timestamp)
    (fields : List HeaderLine) : HttpRequest :=
  (requestOf m target v t).storeLines (fields.map HeaderLine.line)

section

variable {line target body rest : Bytes} {m : Method} {v : Version} {q q' : ByteQueue}

theorem isHeaderLine_of_mem : ∀ l ∈ fields.map HeaderLine.line, IsHeaderLine l := by
  intro l hl
  obtain ⟨h, -, rfl⟩ := List.mem_map.mp hl
  exact ⟨h.noCRLF_line, List.mem_append_right _ List.mem_cons_self⟩

theorem storedRequest_eq (m : Method) (target : Bytes) (v : Version) (t : Timestamp)
    (fields : List HeaderLine) : ∃ headers,
      storedRequest m target v t fields = { requestOf m target v t with headers } :=
  HttpRequest.storeLines_eq _ _

theorem setBody_storedRequest (m : Method) (target : Bytes) (v : Version) (t : Timestamp)
    (fields : List HeaderLine) :
    (storedRequest m target v t fields).setBody [] = storedRequest m target v t fields := by
  obtain ⟨headers, heq⟩ := storedRequest_eq m target v t fields
  rw [heq]
  rfl

theorem version_storedRequest (m : Method) (target : Bytes) (v : Version) (t : Timestamp)
    (fields : List HeaderLine) : (storedRequest m target v t fields).version = v := by
  obtain ⟨headers, heq⟩ := storedRequest_eq m target v t fields
  rw [heq]
  rfl

/-- The length that the body state converts. -/
theorem stoi_storedRequest (m : Method) (target : Bytes) (v : Version)
    (hd : DistinctNames fields) (hlength : LengthIs fields body) (t : Timestamp) :
    stoi ((storedRequest m target v t fields).getHeader (ascii "Content-Length")) =
      if Spelled (ascii "Content-Length") fields then
        if body.length < 2 ^ 31 then .ok (body.length : Int) else .error .outOfRange
      else .error .invalidArgument := by
  by_cases hspelled : Spelled (ascii "Content-Length") fields
  · rw [if_pos hspelled]
    obtain ⟨h, hmem, hname⟩ := hspelled
    obtain ⟨hne, hdigits, hvalue⟩ := hlength h hmem (congrArg lower hname)
    rw [← hname, storedRequest, HttpRequest.getHeader_of_mem _ hd hmem, stoi_digits hne hdigits,
      hvalue]
  · rw [if_neg hspelled, storedRequest, HttpRequest.getHeader_of_not_spelled _ hspelled]
    rfl

/-- **A call over a head and its body** returns behind the body if the parser completes it; only a
POST has one for the parser. -/
theorem parseRequest_fields (h : RequestLineOf line m target v) (hl : NoCRLF line)
    (hd : DistinctNames fields) (hlength : LengthIs fields body) (hc : Completes m fields body)
    (hq : q.readable = headOf line (fields.map HeaderLine.line) ++ (body ++ rest))
    (t : Timestamp) :
    ∃ w, parseRequest {} q t = .returns w ∧ w.ok = true ∧ w.overread = false ∧
      w.context = ⟨.kGotAll, (storedRequest m target v t fields).setBody
        (if m = .kPost then body else [])⟩ ∧
      w.buf.readable = if m = .kPost then rest else body ++ rest := by
  have hrun := parseRequest_head h hl isHeaderLine_of_mem hq t
  have hbehind := readable_behind_head hq
  by_cases hm : m = .kPost
  · subst hm
    simp only [finish, afterHeaders, if_true] at hrun
    have hstoi := stoi_storedRequest .kPost target v hd hlength t
    rw [if_pos (hc rfl).1, if_pos (hc rfl).2] at hstoi
    have hle : body.length ≤ (q.consume
        (headOf line (fields.map HeaderLine.line)).length).readableBytes := by
      rw [← ByteQueue.length_readable, hbehind, List.length_append]
      exact Nat.le_add_right _ _
    rw [parseIter_body t rfl hstoi hle] at hrun
    refine ⟨_, hrun, rfl, rfl, ?_, ?_⟩
    · rw [hbehind, List.take_left]
      rfl
    · simp only
      rw [ByteQueue.readable_retrieve, hbehind, List.drop_left]
      rfl
  · simp only [finish, afterHeaders, hm, if_false, reduceCtorEq] at hrun
    rw [if_neg hm, if_neg hm]
    refine ⟨_, hrun, rfl, rfl, ?_, hbehind⟩
    rw [setBody_storedRequest]
    rfl

/-- Otherwise the conversion of the length throws. -/
theorem parseRequest_fields_faults (h : RequestLineOf line m target v) (hl : NoCRLF line)
    (hd : DistinctNames fields) (hlength : LengthIs fields body) (hc : ¬ Completes m fields body)
    (hq : q.readable = headOf line (fields.map HeaderLine.line) ++ (body ++ rest))
    (t : Timestamp) :
    parseRequest {} q t =
      .faults (if Spelled (ascii "Content-Length") fields then .outOfRange
        else .invalidArgument) := by
  obtain ⟨rfl, hno⟩ := Classical.not_imp.mp hc
  have hrun := parseRequest_head h hl isHeaderLine_of_mem hq t
  simp only [finish, afterHeaders, if_true] at hrun
  have hstoi := stoi_storedRequest .kPost target v hd hlength t
  have herror : stoi ((storedRequest .kPost target v t fields).getHeader
      (ascii "Content-Length")) = .error (if Spelled (ascii "Content-Length") fields then
        .outOfRange else .invalidArgument) := by
    rw [hstoi]
    by_cases hspelled : Spelled (ascii "Content-Length") fields
    · rw [if_pos hspelled, if_pos hspelled, if_neg fun hlt => hno ⟨hspelled, hlt⟩]
    · rw [if_neg hspelled, if_neg hspelled]
  rw [hrun]
  unfold storedRequest at herror
  simp only [parseIter, herror]
  rfl

/-! ## Two calls -/

/-- Both requests are read the same way, and the same decision is made about the connection. -/
structure SameResult (w w' : ParseVars) : Prop where
  ok : w.ok = w'.ok
  state : w.context.state = w'.context.state
  body : w.context.request.body = w'.context.request.body
  buf : w.buf.readable = w'.buf.readable
  close : HttpServer.wantsClose w.context.request = HttpServer.wantsClose w'.context.request

/-- The calls end alike. -/
def Alike : Outcome ParseVars → Outcome ParseVars → Prop
  | .returns w, .returns w' => SameResult w w'
  | .faults f, .faults f' => f = f'
  | .diverges, .diverges => True
  | _, _ => False

/-- A value of `Connection` that makes a difference. -/
def Decisive (v : Version) (value : Bytes) : Prop :=
  v = .kHttp11 ∧ value = ascii "close" ∨ v = .kHttp10 ∧ value = ascii "Keep-Alive"

/-- The decision with a value of `Connection`, and without one. -/
theorem wantsClose_eq_iff {req req' : HttpRequest} (hv : v ≠ .kUnknown) (hversion : req.version = v)
    (hversion' : req'.version = v) (hno : req'.getHeader (ascii "Connection") = []) :
    HttpServer.wantsClose req = HttpServer.wantsClose req' ↔
      ¬ Decisive v (req.getHeader (ascii "Connection")) := by
  have hclose : ∀ r : HttpRequest, HttpServer.wantsClose r =
      (r.getHeader (ascii "Connection") == ascii "close" ||
        (r.version == .kHttp10 && r.getHeader (ascii "Connection") != ascii "Keep-Alive")) :=
    fun _ => rfl
  unfold Decisive
  rw [hclose, hclose, hno, hversion, hversion']
  generalize req.getHeader (ascii "Connection") = value
  cases v with
  | kUnknown => exact absurd rfl hv
  | kHttp10 =>
    by_cases hkeep : value = ascii "Keep-Alive"
    · subst hkeep
      decide
    · refine iff_of_true ?_ fun h => h.elim (nomatch ·.1) fun h => hkeep h.2
      rw [show (value != ascii "Keep-Alive") = true from bne_iff_ne.mpr hkeep]
      cases value == ascii "close" <;> decide
  | kHttp11 =>
    by_cases hclose : value = ascii "close"
    · subst hclose
      decide
    · refine iff_of_true ?_ fun h => h.elim (fun h => hclose h.2) (nomatch ·.1)
      rw [show (value == ascii "close") = false from beq_eq_false_iff_ne.mpr hclose]
      cases value != ascii "Keep-Alive" <;> decide

/-- Both or neither has the header `Connection`, or its value makes no difference. -/
def SameDecision (v : Version) (fields fields' : List HeaderLine) : Prop :=
  (Spelled (ascii "Connection") fields ↔ Spelled (ascii "Connection") fields') ∨
    ∀ h ∈ fields, lower h.name = lower (ascii "Connection") → ¬ Decisive v h.value

theorem SameDecision.symm (hs : SameFields fields fields') (h : SameDecision v fields fields') :
    SameDecision v fields' fields := by
  refine h.imp Iff.symm fun hall g hmem hname => ?_
  obtain ⟨g', hmem', hsame⟩ := hs.symm.partner hmem
  rw [hsame.value]
  exact hall g' hmem' (hsame.name.symm.trans hname)

/-- Only one of the requests has the header: its value decides. -/
theorem wantsClose_iff_of_spelled (m : Method) (target : Bytes) (hv : v ≠ .kUnknown)
    (hd : DistinctNames fields) (hspelled : Spelled (ascii "Connection") fields)
    (hno : ¬ Spelled (ascii "Connection") fields') (t : Timestamp) :
    HttpServer.wantsClose (storedRequest m target v t fields) =
        HttpServer.wantsClose (storedRequest m target v t fields') ↔
      SameDecision v fields fields' := by
  have hnone : (storedRequest m target v t fields').getHeader (ascii "Connection") = [] :=
    HttpRequest.getHeader_of_not_spelled _ hno
  rw [wantsClose_eq_iff hv (version_storedRequest ..) (version_storedRequest ..) hnone]
  obtain ⟨h, hmem, hname⟩ := hspelled
  have hvalue : (storedRequest m target v t fields).getHeader (ascii "Connection") = h.value := by
    rw [← hname]
    exact HttpRequest.getHeader_of_mem _ hd hmem
  rw [hvalue]
  constructor
  · refine fun hnot => .inr fun g hg hgname => ?_
    rwa [hd.eq hg hmem (hgname.trans (congrArg lower hname.symm))]
  · rintro (hiff | hall)
    · exact absurd (hiff.mp ⟨h, hmem, hname⟩) hno
    · exact hall h hmem (congrArg lower hname)

/-- Two faults of the conversion are the same one if both or neither has a length to convert. -/
theorem fault_eq_iff {p q : Prop} [Decidable p] [Decidable q] :
    (if p then Fault.outOfRange else .invalidArgument) =
        (if q then Fault.outOfRange else .invalidArgument) ↔ (p ↔ q) := by
  by_cases hp : p
  · by_cases hq : q
    · simp [hp, hq]
    · simp [hp, hq]
  · by_cases hq : q
    · simp [hp, hq]
    · simp [hp, hq]

theorem wantsClose_iff (m : Method) (target : Bytes) (hv : v ≠ .kUnknown)
    (hs : SameFields fields fields') (hd : DistinctNames fields) (t : Timestamp) :
    HttpServer.wantsClose (storedRequest m target v t fields) =
        HttpServer.wantsClose (storedRequest m target v t fields') ↔
      SameDecision v fields fields' := by
  by_cases hiff : Spelled (ascii "Connection") fields ↔ Spelled (ascii "Connection") fields'
  · refine iff_of_true ?_ (.inl hiff)
    have hvalue := HttpRequest.getHeader_congr hs hd hiff (requestOf m target v t)
    unfold HttpServer.wantsClose
    rw [version_storedRequest, version_storedRequest, storedRequest, storedRequest, hvalue]
  · by_cases hspelled : Spelled (ascii "Connection") fields
    · have hno : ¬ Spelled (ascii "Connection") fields' :=
        fun h => hiff (iff_of_true hspelled h)
      exact wantsClose_iff_of_spelled m target hv hd hspelled hno t
    · have hspelled' : Spelled (ascii "Connection") fields' := by
        by_contra hno
        exact hiff (iff_of_false hspelled hno)
      rw [eq_comm, wantsClose_iff_of_spelled m target hv (hs.distinct hd) hspelled' hspelled t]
      exact ⟨.symm hs.symm, .symm hs⟩

/-- **Two requests that differ in the case of their header names are treated alike if and only if**,
for a POST, both or neither spells `Content-Length` so, and if the calls return, both or neither
spells `Connection` so, or its value makes no difference. -/
theorem alike_iff (h : RequestLineOf line m target v) (hl : NoCRLF line)
    (hs : SameFields fields fields') (hd : DistinctNames fields) (hlength : LengthIs fields body)
    (hq : q.readable = headOf line (fields.map HeaderLine.line) ++ (body ++ rest))
    (hq' : q'.readable = headOf line (fields'.map HeaderLine.line) ++ (body ++ rest))
    (t : Timestamp) :
    Alike (parseRequest {} q t) (parseRequest {} q' t) ↔
      (m = .kPost →
        (Spelled (ascii "Content-Length") fields ↔ Spelled (ascii "Content-Length") fields')) ∧
      (Completes m fields body → SameDecision v fields fields') := by
  have hd' := hs.distinct hd
  have hlength' := hlength.congr hs
  by_cases hc : Completes m fields body
  · obtain ⟨w, hrun, hok, -, hcontext, hbuf⟩ := parseRequest_fields h hl hd hlength hc hq t
    by_cases hc' : Completes m fields' body
    · obtain ⟨w', hrun', hok', -, hcontext', hbuf'⟩ :=
        parseRequest_fields h hl hd' hlength' hc' hq' t
      have hclose := wantsClose_iff m target h.version_known hs hd t
      rw [hrun, hrun', and_iff_right fun hp => iff_of_true (hc hp).1 (hc' hp).1,
        forall_prop_of_true hc, ← hclose]
      constructor
      · intro hsame
        have hw := hsame.close
        rw [hcontext, hcontext'] at hw
        exact hw
      · intro hsame
        exact ⟨hok.trans hok'.symm, by rw [hcontext, hcontext'], by rw [hcontext, hcontext']; rfl,
          hbuf.trans hbuf'.symm, by rw [hcontext, hcontext']; exact hsame⟩
    · rw [hrun, parseRequest_fields_faults h hl hd' hlength' hc' hq' t]
      refine iff_of_false id fun hsame => hc' fun hp => ?_
      exact ⟨(hsame.1 hp).mp (hc hp).1, (hc hp).2⟩
  · rw [parseRequest_fields_faults h hl hd hlength hc hq t]
    by_cases hc' : Completes m fields' body
    · obtain ⟨w', hrun', -⟩ := parseRequest_fields h hl hd' hlength' hc' hq' t
      rw [hrun']
      refine iff_of_false id fun hsame => hc fun hp => ?_
      exact ⟨(hsame.1 hp).mpr (hc' hp).1, (hc' hp).2⟩
    · rw [parseRequest_fields_faults h hl hd' hlength' hc' hq' t]
      have hp : m = .kPost := (Classical.not_imp.mp hc).1
      refine fault_eq_iff.trans ?_
      rw [forall_prop_of_true hp]
      exact (and_iff_left fun hcomplete => absurd hcomplete hc).symm

theorem padding_nil : Padding [] := fun _ => nofun

theorem padding_space : Padding [32] := by decide

/-- `name: value`. -/
def plainLine (name value : Bytes) (hname : NoCRLF name ∧ 58 ∉ name)
    (hvalue : NoCRLF value ∧ value.head?.any isspace = false ∧
      value.getLast?.any isspace = false) : HeaderLine :=
  ⟨name, [32], value, [], hname.1, hname.2, hvalue.1, hvalue.2.1, hvalue.2.2, padding_space,
    padding_nil⟩

theorem sameFields_plainLine {name name' value : Bytes} (h : lower name = lower name')
    (hname : NoCRLF name ∧ 58 ∉ name) (hname' : NoCRLF name' ∧ 58 ∉ name')
    (hvalue : NoCRLF value ∧ value.head?.any isspace = false ∧
      value.getLast?.any isspace = false) :
    SameFields [plainLine name value hname hvalue] [plainLine name' value hname' hvalue] :=
  .cons ⟨h, rfl⟩ .nil

theorem distinctNames_singleton (h : HeaderLine) : DistinctNames [h] := List.nodup_singleton _

/-- A name that the code does not look for, in two cases. -/
theorem alike_iff_example :
    ∃ fields fields' : List HeaderLine, fields.map HeaderLine.name = [ascii "Via"] ∧
      fields'.map HeaderLine.name = [ascii "VIA"] ∧
      Alike
        (parseRequest {} ((ByteQueue.new 64).append
          (headOf (ascii "GET / HTTP/1.1") (fields.map HeaderLine.line) ++ ([] ++ []))) ⟨7⟩)
        (parseRequest {} ((ByteQueue.new 64).append
          (headOf (ascii "GET / HTTP/1.1") (fields'.map HeaderLine.line) ++ ([] ++ []))) ⟨7⟩) := by
  have hline : RequestLineOf (ascii "GET / HTTP/1.1") .kGet (ascii "/") .kHttp11 := by decide
  have hs := @sameFields_plainLine (ascii "Via") (ascii "VIA") (ascii "x") (by decide) (by decide)
    (by decide) (by decide)
  refine ⟨_, _, rfl, rfl, (alike_iff hline (by decide) hs (distinctNames_singleton _) ?_
    (ByteQueue.readable_append_new _ _) (ByteQueue.readable_append_new _ _) ⟨7⟩).mpr
    ⟨nofun, fun _ => .inl ?_⟩⟩
  · intro h hmem hname
    rw [List.mem_singleton.mp hmem] at hname
    exact absurd hname (by decide)
  · decide

/-- The names of the headers do not depend on the case, for the requests of one method. -/
def IgnoresCase (m : Method) : Prop :=
  ∀ (line target body rest : Bytes) (v : Version) (fields fields' : List HeaderLine)
    (q q' : ByteQueue) (t : Timestamp), RequestLineOf line m target v → NoCRLF line →
    SameFields fields fields' → DistinctNames fields → LengthIs fields body →
    q.readable = headOf line (fields.map HeaderLine.line) ++ (body ++ rest) →
    q'.readable = headOf line (fields'.map HeaderLine.line) ++ (body ++ rest) →
    Alike (parseRequest {} q t) (parseRequest {} q' t)

/-- **The case of a name matters**: a POST with `content-length` faults, and a GET with
`connection: close` is kept alive. -/
theorem not_alike_example : ¬ IgnoresCase .kPost ∧ ¬ IgnoresCase .kGet := by
  have hqueue : ∀ data : Bytes, ∃ q : ByteQueue, q.readable = data := fun data =>
    ⟨_, ByteQueue.readable_append_new 64 data⟩
  constructor
  · intro h
    have hline : RequestLineOf (ascii "POST / HTTP/1.1") .kPost (ascii "/") .kHttp11 := by decide
    have hs := @sameFields_plainLine (ascii "Content-Length") (ascii "content-length") (ascii "2")
      (by decide) (by decide) (by decide) (by decide)
    have hlength : LengthIs [plainLine (ascii "Content-Length") (ascii "2") (by decide) (by decide)]
        (ascii "hi") := by
      intro h hmem _
      rw [List.mem_singleton.mp hmem]
      exact ⟨by decide, by decide +kernel, by decide +kernel⟩
    obtain ⟨q, hq⟩ := hqueue _
    obtain ⟨q', hq'⟩ := hqueue _
    have hd := distinctNames_singleton
      (plainLine (ascii "Content-Length") (ascii "2") (by decide) (by decide))
    have halike := h _ _ _ [] _ _ _ q q' ⟨7⟩ hline (by decide) hs hd hlength hq hq'
    obtain ⟨w, hrun, -⟩ := parseRequest_fields hline (by decide) hd hlength
      (fun _ => ⟨by decide, by decide⟩) hq ⟨7⟩
    rw [hrun, parseRequest_fields_faults hline (by decide) (hs.distinct hd) (hlength.congr hs)
      (fun hc => absurd (hc rfl).1 (by decide)) hq' ⟨7⟩] at halike
    exact halike
  · intro h
    have hline : RequestLineOf (ascii "GET / HTTP/1.1") .kGet (ascii "/") .kHttp11 := by decide
    have hs := @sameFields_plainLine (ascii "Connection") (ascii "connection") (ascii "close")
      (by decide) (by decide) (by decide) (by decide)
    have hlength : LengthIs [plainLine (ascii "Connection") (ascii "close") (by decide) (by decide)]
        [] := by
      intro h hmem hname
      rw [List.mem_singleton.mp hmem] at hname
      exact absurd hname (by decide)
    obtain ⟨q, hq⟩ := hqueue _
    obtain ⟨q', hq'⟩ := hqueue _
    have hd := distinctNames_singleton
      (plainLine (ascii "Connection") (ascii "close") (by decide) (by decide))
    have halike := h _ _ _ [] _ _ _ q q' ⟨7⟩ hline (by decide) hs hd hlength hq hq'
    obtain ⟨w, hrun, -, -, hcontext, -⟩ := parseRequest_fields hline (by decide) hd hlength
      nofun hq ⟨7⟩
    obtain ⟨w', hrun', -, -, hcontext', -⟩ := parseRequest_fields hline (by decide)
      (hs.distinct hd) (hlength.congr hs) nofun hq' ⟨7⟩
    rw [hrun, hrun'] at halike
    have hclose := halike.close
    rw [hcontext, hcontext'] at hclose
    rcases (wantsClose_iff _ _ (by decide) hs hd ⟨7⟩).mp hclose with hiff | hall
    · exact absurd hiff (by decide)
    · exact hall _ List.mem_cons_self rfl (.inl ⟨rfl, rfl⟩)

end

end HttpContext

end SimpleHttpServer
