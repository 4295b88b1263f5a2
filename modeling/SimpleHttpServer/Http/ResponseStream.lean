import SimpleHttpServer.Http.HeaderBlock
import SimpleHttpServer.Http.HttpResponse
import SimpleHttpServer.Lib.Frames

/-!
# The responses on a connection, read back

`appendToBuffer` prints a response behind whatever its buffer holds. `Received` is a response as a
client reads it, and `readHead` the reader of its head: the status line and the header lines up to
the first empty line, in the grammar of the protocol and not in the printer's terms. The line
`Content-Length` is kept apart from the other headers; `framing` takes the body by it.

* `flatten_pieces`: the printed response as lines and a body;
* `readHead_print`: the head of a printed response is read back, whatever follows it;
* **`appendToBuffer_read_back`**: a printed response is read back from the bytes added, and a list
  of keep-alive responses from theirs, with nothing left over;
* `print_injective`: two lists of keep-alive responses never look the same.
-/

namespace SimpleHttpServer

open Lib Lib.Search Lib.Lines Lib.Frames

/-! ## A client -/

/-- A response as a client reads it. -/
structure Received where
  version : Bytes
  code : Nat
  message : Bytes
  /-- The header lines but `Content-Length`. -/
  headers : HeaderMap := ∅
  contentLength : Option Nat := none
  body : Bytes := []

namespace Received

/-- A run of decimal digits. -/
def numeral (ds : Bytes) : Option Nat :=
  if ds ≠ [] ∧ ∀ d ∈ ds, isdigit d = true then some (digitsValue ds) else none

/-- `version ' ' code ' ' message`. -/
def readStatusLine (line : Bytes) : Option Received :=
  let behindVersion := (breakAt 32 line).2.drop 1
  let behindCode := (breakAt 32 behindVersion).2.drop 1
  (numeral (breakAt 32 behindVersion).1).map fun code =>
    { version := (breakAt 32 line).1, code, message := behindCode }

/-- `name ": " value`. -/
def readHeaderLine (d : Received) (line : Bytes) : Option Received :=
  match breakAt 58 line with
  | (name, 58 :: 32 :: value) =>
    if name = ascii "Content-Length" then
      (numeral value).map fun n => { d with contentLength := some n }
    else some { d with headers := d.headers.insert name value }
  | _ => none

/-- The head of a response, split off at the first empty line. -/
def readHead (xs : Bytes) : Option (Received × Bytes) :=
  match headerBlock xs with
  | ⟨status :: lines, some _, rest⟩ =>
    ((readStatusLine status).bind fun d => lines.foldlM readHeaderLine d).map (·, rest)
  | _ => none

/-- A response whose body is everything behind the head. -/
def read (xs : Bytes) : Option Received :=
  (readHead xs).map fun p => { p.1 with body := p.2 }

/-- A response whose body is as long as its `Content-Length` says, and what follows it. -/
def readByLength (xs : Bytes) : Option (Received × Bytes) :=
  (readHead xs).bind fun p => p.1.contentLength.bind fun n =>
    if n ≤ p.2.length then some ({ p.1 with body := p.2.take n }, p.2.drop n) else none

/-- A head is not empty. -/
theorem readHead_length {xs rest : Bytes} {d : Received} (h : readHead xs = some (d, rest)) :
    rest.length < xs.length := by
  unfold readHead at h
  split at h
  · rename_i status lines last rest' hblock
    have hlen : (headerBlock xs).last.isSome = true →
        (headerBlock xs).rest.length + 2 ≤ xs.length := block_rest_length xs
    simp only [hblock, Option.isSome_some, true_imp_iff] at hlen
    obtain ⟨d', -, heq⟩ := Option.map_eq_some_iff.mp h
    obtain rfl : rest' = rest := congrArg Prod.snd heq
    omega
  · cases h

theorem readByLength_length {xs rest : Bytes} {d : Received}
    (h : readByLength xs = some (d, rest)) : rest.length < xs.length := by
  obtain ⟨⟨d', body⟩, hhead, h⟩ := Option.bind_eq_some_iff.mp h
  obtain ⟨n, -, h⟩ := Option.bind_eq_some_iff.mp h
  by_cases hn : n ≤ body.length
  · simp only [hn, if_true, Option.some.injEq, Prod.mk.injEq] at h
    rw [← h.2, List.length_drop]
    have hlen := readHead_length hhead
    omega
  · simp [hn] at h

/-- The responses on a connection that is kept alive. -/
def framing : Framing UInt8 Received where
  read := readByLength
  shorter := readByLength_length

theorem numeral_decimal (n : Nat) : numeral (decimal n) = some n := by
  unfold numeral
  rw [if_pos ⟨decimal_ne_nil n, fun d => isdigit_of_mem_decimal⟩, digitsValue_decimal]

/-- A printed number has no byte that is not a digit. -/
theorem not_mem_decimal {c : UInt8} (h : isdigit c = false) (n : Nat) : c ∉ decimal n := by
  intro hc
  rw [isdigit_of_mem_decimal hc] at h
  cases h

end Received

/-! ## Printed responses -/

/-- Text that stays on its line, of a length that is an `int`. -/
structure LineText (xs : Bytes) : Prop where
  noCR : 13 ∉ xs
  noLF : 10 ∉ xs
  short : xs.length < 2 ^ 31

instance (xs : Bytes) : Decidable (LineText xs) :=
  decidable_of_iff (13 ∉ xs ∧ 10 ∉ xs ∧ xs.length < 2 ^ 31)
    ⟨fun h => ⟨h.1, h.2.1, h.2.2⟩, fun h => ⟨h.noCR, h.noLF, h.short⟩⟩

/-- A header that can be printed and is not one `appendToBuffer` prints itself. -/
structure HeaderText (name value : Bytes) : Prop where
  name_text : LineText name
  value_text : LineText value
  name_noColon : 58 ∉ name
  name_ne_length : name ≠ ascii "Content-Length"
  name_ne_connection : name ≠ ascii "Connection"

instance (name value : Bytes) : Decidable (HeaderText name value) :=
  decidable_of_iff (LineText name ∧ LineText value ∧ 58 ∉ name ∧
      name ≠ ascii "Content-Length" ∧ name ≠ ascii "Connection")
    ⟨fun h => ⟨h.1, h.2.1, h.2.2.1, h.2.2.2.1, h.2.2.2.2⟩, fun h =>
      ⟨h.name_text, h.value_text, h.name_noColon, h.name_ne_length, h.name_ne_connection⟩⟩

namespace HttpResponse

/-- The parts of the response are texts of a line, and short; the body may be anything. -/
structure Printable (r : HttpResponse) : Prop where
  message : LineText r.statusMessage
  header : ∀ h ∈ r.headers.toList, HeaderText h.1 h.2
  body : r.body.length < 2 ^ 31

variable (r : HttpResponse)

/-- The value `appendToBuffer` prints for `Connection`. -/
def connection : Bytes := if r.closeConnection then ascii "close" else ascii "Keep-Alive"

/-- The response as it should be read. -/
def received : Received where
  version := ascii "HTTP/1.1"
  code := r.statusCode.value
  message := r.statusMessage
  headers := r.headers.insert (ascii "Connection") r.connection
  contentLength := if r.closeConnection then none else some r.body.length
  body := r.body

/-- The status line without its CRLF. -/
def statusLine : Bytes :=
  ascii "HTTP/1.1" ++ 32 :: (decimal r.statusCode.value ++ 32 :: r.statusMessage)

/-- A header line without its CRLF. -/
def headerLine (h : Bytes × Bytes) : Bytes := h.1 ++ 58 :: 32 :: h.2

/-- The headers in the order in which they are printed. -/
def printedHeaders : List (Bytes × Bytes) :=
  (if r.closeConnection then []
    else [(ascii "Content-Length", decimal r.body.length)]) ++
  (ascii "Connection", r.connection) :: r.headers.toList

/-- The bytes of a response. -/
def print : Bytes :=
  writeLines (r.statusLine :: r.printedHeaders.map headerLine) ++ (Buffer.kCRLF ++ r.body)

/-! ## The printed bytes -/

theorem snprintf32_of_le {text : Bytes} (h : text.length ≤ 31) : snprintf32 text = text :=
  List.take_of_length_le h

/-- The status line fits the `char buf[32]`. -/
theorem snprintf32_status (code : HttpStatusCode) :
    snprintf32 (ascii "HTTP/1.1 " ++ decimal code.value ++ ascii " ") =
      ascii "HTTP/1.1" ++ 32 :: (decimal code.value ++ [32]) := by
  cases code <;> decide

/-- The length of a body fits it if it is an `int`. -/
theorem snprintf32_length {n : Nat} (h : n < 2 ^ 31) :
    snprintf32 (ascii "Content-Length: " ++ decimal n ++ ascii "\r\n") =
      headerLine (ascii "Content-Length", decimal n) ++ [13, 10] := by
  have hdigits : (decimal n).length ≤ 10 := length_decimal_le (by omega) (by omega)
  rw [snprintf32_of_le]
  · simp [headerLine, ascii]
  · have h₁ : (ascii "Content-Length: ").length = 16 := by decide
    have h₂ : (ascii "\r\n").length = 2 := by decide
    rw [List.length_append, List.length_append]
    omega

theorem flatten_headers (hs : List (Bytes × Bytes)) :
    (hs.flatMap fun h => [h.1, ascii ": ", h.2, ascii "\r\n"]).flatten =
      writeLines (hs.map headerLine) := by
  induction hs with
  | nil => rfl
  | cons h hs ih =>
    rw [List.flatMap_cons, List.flatten_append, ih]
    simp [headerLine, ascii, written]

/-- The pieces of a response are its lines and its body. -/
theorem flatten_pieces (h : r.body.length < 2 ^ 31) : r.pieces.flatten = r.print := by
  have hpieces : r.pieces.flatten = r.statusLine ++ [13, 10] ++
      (writeLines (r.printedHeaders.map headerLine) ++ (Buffer.kCRLF ++ r.body)) := by
    unfold pieces printedHeaders connection
    rw [snprintf32_status, snprintf32_length h]
    simp only [List.flatten_append, flatten_headers]
    cases r.closeConnection <;> simp [statusLine, written, Buffer.kCRLF, headerLine, ascii]
  rw [hpieces, print]
  simp [written]

variable {r}

/-- Every piece of a printable response has a length that is an `int`. -/
theorem Printable.encodable (h : r.Printable) : r.Encodable := by
  have hshort : ∀ (text : Bytes), (snprintf32 text).length < 2 ^ 31 := fun text =>
    Nat.lt_of_le_of_lt (List.length_take_le 31 text) (by decide)
  intro p hp
  unfold pieces at hp
  simp only [List.mem_append, List.mem_cons, List.not_mem_nil, or_false, List.mem_flatMap] at hp
  rcases hp with (((rfl | rfl | rfl) | hp) | ⟨⟨name, value⟩, hmem, hp⟩) | (rfl | rfl)
  · exact hshort _
  · exact h.message.short
  · decide
  · split at hp
    · obtain rfl := List.mem_singleton.mp hp
      decide
    · simp only [List.mem_cons, List.not_mem_nil, or_false] at hp
      rcases hp with rfl | rfl
      · exact hshort _
      · decide
  · rcases hp with rfl | rfl | rfl | rfl
    · exact (h.header _ hmem).name_text.short
    · decide
    · exact (h.header _ hmem).value_text.short
    · decide
  · decide
  · exact h.body

/-! ## The head, read back -/

/-- The status line stays on its line. -/
theorem Printable.noCRLF_statusLine (h : r.Printable) : NoCRLF r.statusLine := by
  refine noCRLF_of_not_mem fun hm => ?_
  simp only [statusLine, List.mem_append, List.mem_cons] at hm
  rcases hm with hm | hm | hm | hm | hm
  · exact absurd hm (by decide)
  · exact absurd hm (by decide)
  · exact Received.not_mem_decimal rfl _ hm
  · exact absurd hm (by decide)
  · exact h.message.noCR hm

theorem noCRLF_headerLine {h : Bytes × Bytes} (hname : 13 ∉ h.1) (hvalue : 13 ∉ h.2) :
    NoCRLF (headerLine h) := by
  refine noCRLF_of_not_mem fun hm => ?_
  simp only [headerLine, List.mem_append, List.mem_cons] at hm
  rcases hm with hm | hm | hm | hm
  · exact hname hm
  · exact absurd hm (by decide)
  · exact absurd hm (by decide)
  · exact hvalue hm

/-- Every printed header stays on its line. -/
theorem Printable.noCR_printed (h : r.Printable) :
    ∀ p ∈ r.printedHeaders, 13 ∉ p.1 ∧ 13 ∉ p.2 := by
  have hlength : (13 : UInt8) ∉ ascii "Content-Length" := by decide
  have hname : (13 : UInt8) ∉ ascii "Connection" := by decide
  have hconnection : (13 : UInt8) ∉ r.connection := by
    unfold connection
    split <;> decide
  intro p hp
  rcases List.mem_append.mp hp with hp | hp
  · split at hp
    · exact absurd hp List.not_mem_nil
    · obtain rfl := List.mem_singleton.mp hp
      exact ⟨hlength, Received.not_mem_decimal rfl _⟩
  · rcases List.mem_cons.mp hp with rfl | hp
    · exact ⟨hname, hconnection⟩
    · exact ⟨(h.header p hp).name_text.noCR, (h.header p hp).value_text.noCR⟩

/-- The head ends at the first empty line, whatever the body. -/
theorem Printable.headerBlock_print (h : r.Printable) (rest : Bytes) :
    headerBlock (r.print ++ rest) =
      ⟨r.statusLine :: r.printedHeaders.map headerLine, some [], r.body ++ rest⟩ := by
  have hlines : ∀ l ∈ r.statusLine :: r.printedHeaders.map headerLine, NoCRLF l ∧ l ≠ [] := by
    intro l hl
    rcases List.mem_cons.mp hl with rfl | hl
    · exact ⟨h.noCRLF_statusLine, by simp [statusLine]⟩
    · obtain ⟨p, hp, rfl⟩ := List.mem_map.mp hl
      obtain ⟨hname, hvalue⟩ := h.noCR_printed p hp
      exact ⟨noCRLF_headerLine hname hvalue, by simp [headerLine]⟩
  rw [print, List.append_assoc, List.append_assoc]
  exact HttpContext.headerBlock_writeLines hlines (r.body ++ rest)

theorem readStatusLine_statusLine :
    Received.readStatusLine r.statusLine =
      some ⟨ascii "HTTP/1.1", r.statusCode.value, r.statusMessage, ∅, none, []⟩ := by
  have hcode : (32 : UInt8) ∉ decimal r.statusCode.value := Received.not_mem_decimal rfl _
  unfold Received.readStatusLine statusLine
  simp only [breakAt_append_cons (show (32 : UInt8) ∉ ascii "HTTP/1.1" by decide),
    List.drop_succ_cons, List.drop_zero, breakAt_append_cons hcode, Received.numeral_decimal]
  rfl

theorem readHeaderLine_length (d : Received) (n : Nat) :
    d.readHeaderLine (headerLine (ascii "Content-Length", decimal n)) =
      some { d with contentLength := some n } := by
  have hcolon : (58 : UInt8) ∉ ascii "Content-Length" := by decide
  unfold Received.readHeaderLine headerLine
  simp only [breakAt_append_cons hcolon, if_true, Received.numeral_decimal, Option.map_some]

theorem readHeaderLine_other (d : Received) {name value : Bytes} (hcolon : 58 ∉ name)
    (hname : name ≠ ascii "Content-Length") :
    d.readHeaderLine (headerLine (name, value)) =
      some { d with headers := d.headers.insert name value } := by
  unfold Received.readHeaderLine headerLine
  simp only [breakAt_append_cons hcolon, hname, if_false]

/-- Header lines are read into the map. -/
theorem readHeaderLines : ∀ {hs : List (Bytes × Bytes)} (d : Received),
    (∀ h ∈ hs, 58 ∉ h.1 ∧ h.1 ≠ ascii "Content-Length") →
      (hs.map headerLine).foldlM Received.readHeaderLine d =
        some { d with headers := hs.foldl (fun m h => m.insert h.1 h.2) d.headers }
  | [], d, _ => rfl
  | h :: hs, d, hall => by
    obtain ⟨hcolon, hname⟩ := hall h List.mem_cons_self
    rw [List.map_cons, List.foldlM_cons, readHeaderLine_other d hcolon hname]
    exact readHeaderLines _ fun x hx => hall x (List.mem_cons_of_mem h hx)

/-- The entries of a map with a new one. -/
theorem toList_insert_perm {m : HeaderMap} {k v : Bytes} (hk : m[k]? = none) :
    ((k, v) :: m.toList).Perm (m.insert k v).toList := by
  have hnodup : ∀ m : HeaderMap, m.toList.Nodup := fun m =>
    Std.ExtTreeMap.distinct_keys_toList.imp fun hne heq =>
      hne (by rw [heq]; exact Std.ReflCmp.compare_self)
  have hnew : (k, v) ∉ m.toList := fun hmem => by
    rw [Std.ExtTreeMap.mem_toList_iff_getElem?_eq_some.mp hmem] at hk
    cases hk
  refine (List.perm_ext_iff_of_nodup ((hnodup m).cons hnew) (hnodup _)).mpr fun ⟨k', v'⟩ => ?_
  rw [List.mem_cons, Std.ExtTreeMap.mem_toList_iff_getElem?_eq_some,
    Std.ExtTreeMap.mem_toList_iff_getElem?_eq_some, Std.ExtTreeMap.getElem?_insert]
  by_cases h : k = k'
  · subst h
    rw [if_pos Std.ReflCmp.compare_self, hk]
    simp [eq_comm]
  · rw [if_neg fun hc => h (Std.LawfulEqCmp.eq_of_compare hc)]
    simp [Ne.symm h]

/-- A printable response has no `Connection` header of its own. -/
theorem Printable.no_connection (h : r.Printable) : r.headers[ascii "Connection"]? = none := by
  cases hv : r.headers[ascii "Connection"]? with
  | none => rfl
  | some value =>
    have hmem := Std.ExtTreeMap.mem_toList_iff_getElem?_eq_some.mpr hv
    exact absurd rfl (h.header _ hmem).name_ne_connection

/-- The headers behind the length are read into the map. -/
theorem Printable.readHeaderLines_connection (h : r.Printable) (d : Received)
    (hd : d.headers = ∅) :
    (((ascii "Connection", r.connection) :: r.headers.toList).map headerLine).foldlM
        Received.readHeaderLine d =
      some { d with headers := r.headers.insert (ascii "Connection") r.connection } := by
  have hcolon : (58 : UInt8) ∉ ascii "Connection" := by decide
  have hne : ascii "Connection" ≠ ascii "Content-Length" := by decide
  rw [readHeaderLines, hd, foldl_insert_lines (toList_insert_perm h.no_connection)]
  intro p hp
  rcases List.mem_cons.mp hp with rfl | hp
  · exact ⟨hcolon, hne⟩
  · exact ⟨(h.header p hp).name_noColon, (h.header p hp).name_ne_length⟩

/-- The printed headers are read back, the length apart from the map. -/
theorem Printable.read_printedHeaders (h : r.Printable) (version message : Bytes) (code : Nat) :
    (r.printedHeaders.map headerLine).foldlM Received.readHeaderLine
        ⟨version, code, message, ∅, none, []⟩ =
      some ⟨version, code, message, r.headers.insert (ascii "Connection") r.connection,
        if r.closeConnection then none else some r.body.length, []⟩ := by
  unfold printedHeaders
  by_cases hc : r.closeConnection = true
  · rw [if_pos hc, if_pos hc, List.nil_append, h.readHeaderLines_connection _ rfl]
  · rw [if_neg hc, if_neg hc, List.singleton_append, List.map_cons, List.foldlM_cons,
      readHeaderLine_length]
    exact h.readHeaderLines_connection _ rfl

/-- **The head of a printed response is read back**, and its body and what follows are left. -/
theorem Printable.readHead_print (h : r.Printable) (rest : Bytes) :
    Received.readHead (r.print ++ rest) =
      some ({ r.received with body := [] }, r.body ++ rest) := by
  unfold Received.readHead
  rw [h.headerBlock_print rest]
  simp only [readStatusLine_statusLine, Option.bind_some, h.read_printedHeaders]
  rfl

/-! ## The round trip -/

/-- A response is read back from its bytes alone. -/
theorem Printable.read_print (h : r.Printable) : Received.read r.print = some r.received := by
  have hhead := h.readHead_print []
  rw [List.append_nil, List.append_nil] at hhead
  unfold Received.read
  rw [hhead]
  rfl

/-- A keep-alive response is read back by its length, whatever follows it. -/
theorem Printable.readByLength_print (h : r.Printable) (hkeep : r.closeConnection = false)
    (rest : Bytes) : Received.framing.read (r.print ++ rest) = some (r.received, rest) := by
  have hreceived : r.received = { r.received with contentLength := some r.body.length } := by
    unfold received
    rw [hkeep]
    rfl
  have hle : r.body.length ≤ (r.body ++ rest).length := by simp
  change Received.readByLength (r.print ++ rest) = some (r.received, rest)
  unfold Received.readByLength
  rw [h.readHead_print rest, hreceived]
  simp only [Option.bind_some, hle, if_true, List.take_left, List.drop_left]
  rfl

/-- A printable response is appended as it is printed. -/
theorem Printable.appendToBuffer (h : r.Printable) (output : ByteQueue) :
    ∃ q, r.appendToBuffer output = .ok q ∧ q.readable = output.readable ++ r.print := by
  rw [← r.flatten_pieces h.body]
  exact appendToBuffer_of_encodable h.encodable output

/-- Responses appended one after another. -/
def appendAll (rs : List HttpResponse) (output : ByteQueue) : Except Fault ByteQueue :=
  rs.foldlM (fun q r => r.appendToBuffer q) output

theorem appendAll_printable : ∀ {rs : List HttpResponse} (output : ByteQueue),
    (∀ r ∈ rs, r.Printable) → ∃ q, appendAll rs output = .ok q ∧
      q.readable = output.readable ++ rs.flatMap print
  | [], output, _ => ⟨output, rfl, by simp⟩
  | r :: rs, output, h => by
    obtain ⟨q, hq, hreadable⟩ := (h r List.mem_cons_self).appendToBuffer output
    obtain ⟨q', hq', hreadable'⟩ :=
      appendAll_printable q fun x hx => h x (List.mem_cons_of_mem r hx)
    refine ⟨q', ?_, ?_⟩
    · rw [appendAll, List.foldlM_cons, hq]
      exact hq'
    · rw [hreadable', hreadable, List.flatMap_cons, List.append_assoc]

/-- **Printed responses are self-delimiting.** The bytes added for one are read back by splitting
them at the first empty line; those added for a list of keep-alive responses are read back, each
body by its length, as that list. -/
theorem appendToBuffer_read_back :
    (∀ (r : HttpResponse) (output : ByteQueue), r.Printable →
      ∃ q added, r.appendToBuffer output = .ok q ∧ q.readable = output.readable ++ added ∧
        Received.read added = some r.received) ∧
    (∀ (rs : List HttpResponse) (output : ByteQueue),
      (∀ r ∈ rs, r.Printable ∧ r.closeConnection = false) →
      ∃ q added, appendAll rs output = .ok q ∧ q.readable = output.readable ++ added ∧
        Received.framing.readAll added = (rs.map received, [])) := by
  constructor
  · intro r output h
    obtain ⟨q, hq, hreadable⟩ := h.appendToBuffer output
    exact ⟨q, r.print, hq, hreadable, h.read_print⟩
  · intro rs output h
    obtain ⟨q, hq, hreadable⟩ := appendAll_printable output fun r hr => (h r hr).1
    have hall := Framing.readAll_written [] fun r hr =>
      (h r hr).1.readByLength_print (h r hr).2
    rw [List.append_nil, Framing.readAll_nil, List.append_nil] at hall
    exact ⟨q, rs.flatMap print, hq, hreadable, hall⟩

/-- What is read tells the response. -/
theorem received_injective {r r' : HttpResponse} (h : r.Printable) (h' : r'.Printable)
    (heq : r.received = r'.received) : r = r' := by
  simp only [received, Received.mk.injEq, true_and] at heq
  obtain ⟨hcode, hmessage, hheaders, hlength, hbody⟩ := heq
  have hstatus : r.statusCode = r'.statusCode := by
    cases hc : r.statusCode <;> cases hc' : r'.statusCode <;> rw [hc, hc'] at hcode <;>
      first | rfl | exact absurd hcode (by decide)
  have hclose : r.closeConnection = r'.closeConnection := by
    cases hc : r.closeConnection <;> cases hc' : r'.closeConnection <;> simp_all
  have herase : ∀ {r : HttpResponse}, r.Printable →
      (r.headers.insert (ascii "Connection") r.connection).erase (ascii "Connection") =
        r.headers := by
    intro r h
    refine Std.ExtTreeMap.ext_getElem? fun k => ?_
    rw [Std.ExtTreeMap.getElem?_erase, Std.ExtTreeMap.getElem?_insert]
    by_cases hk : compare (ascii "Connection") k = .eq
    · rw [if_pos hk, ← Std.LawfulEqCmp.eq_of_compare hk, h.no_connection]
    · rw [if_neg hk, if_neg hk]
  have hmap : r.headers = r'.headers := by
    rw [← herase h, hheaders, herase h']
  cases r
  cases r'
  simp_all

theorem map_received_injective : ∀ {rs rs' : List HttpResponse}, (∀ r ∈ rs, r.Printable) →
    (∀ r ∈ rs', r.Printable) → rs.map received = rs'.map received → rs = rs'
  | [], [], _, _, _ => rfl
  | [], _ :: _, _, _, heq => by simp at heq
  | _ :: _, [], _, _, heq => by simp at heq
  | r :: rs, r' :: rs', h, h', heq => by
    rw [List.map_cons, List.map_cons] at heq
    obtain ⟨hhead, htail⟩ := List.cons.inj heq
    obtain rfl := received_injective (h r List.mem_cons_self) (h' r' List.mem_cons_self) hhead
    rw [map_received_injective (fun x hx => h x (List.mem_cons_of_mem r hx))
      (fun x hx => h' x (List.mem_cons_of_mem r hx)) htail]

/-- Two lists of keep-alive responses never look the same. -/
theorem print_injective {rs rs' : List HttpResponse}
    (h : ∀ r ∈ rs, r.Printable ∧ r.closeConnection = false)
    (h' : ∀ r ∈ rs', r.Printable ∧ r.closeConnection = false)
    (heq : rs.flatMap print = rs'.flatMap print) : rs = rs' :=
  map_received_injective (fun r hr => (h r hr).1) (fun r hr => (h' r hr).1)
    (Framing.written_injective (fun r hr => (h r hr).1.readByLength_print (h r hr).2)
      (fun r hr => (h' r hr).1.readByLength_print (h' r hr).2) heq)

/-- A body that looks like a response. -/
def nestedExample : HttpResponse where
  headers := Std.ExtTreeMap.ofList [(ascii "Server", ascii "x: y")]
  statusCode := .k200Ok
  statusMessage := ascii "OK"
  closeConnection := false
  body := ascii "\r\n\r\nHTTP/1.1 404 \r\n\r\n"

theorem nestedExample_printable : nestedExample.Printable where
  message := by decide
  header := by decide +kernel
  body := by decide

theorem appendToBuffer_read_back_example :
    (∃ q added, nestedExample.appendToBuffer (ByteQueue.new 16) = .ok q ∧
      q.readable = [] ++ added ∧ Received.read added = some nestedExample.received) ∧
    (∃ q added, appendAll [nestedExample, nestedExample] (ByteQueue.new 16) = .ok q ∧
      q.readable = [] ++ added ∧ Received.framing.readAll added =
        ([nestedExample.received, nestedExample.received], [])) := by
  have hone := appendToBuffer_read_back.1 nestedExample (ByteQueue.new 16) nestedExample_printable
  have htwo := appendToBuffer_read_back.2 [nestedExample, nestedExample] (ByteQueue.new 16)
    (by simp [nestedExample_printable]; rfl)
  rw [ByteQueue.readable_new] at hone htwo
  exact ⟨hone, htwo⟩

end HttpResponse

end SimpleHttpServer
