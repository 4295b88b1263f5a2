import SimpleHttpServer.Decimal

/-!
# `HttpRequest`

`http/HttpRequest.h`: the parsed request and its setters. `headers` is a `std::map`, an ordered map
whose equality is that of its entries. `assert(method_ == kInvalid)` of `setMethod` is a `Fault`:
the build does not define `NDEBUG`.
-/

namespace SimpleHttpServer

/-- `isspace` in the C locale. -/
def isspace (c : UInt8) : Bool := c == 32 || (9 ≤ c && c ≤ 13)

/-- `HttpRequest::Method`. -/
inductive Method where
  | kInvalid | kGet | kPost | kHead | kPut | kDelete
  deriving DecidableEq, Repr

/-- `HttpRequest::Version`. -/
inductive Version where
  | kUnknown | kHttp10 | kHttp11
  deriving DecidableEq, Repr

/-- `std::map<std::string, std::string>`. -/
abbrev HeaderMap := Std.ExtTreeMap Bytes Bytes

/-- `class HttpRequest`. -/
structure HttpRequest where
  method : Method := .kInvalid
  version : Version := .kUnknown
  path : Bytes := []
  query : Bytes := []
  body : Bytes := []
  receiveTime : Timestamp := ⟨0⟩
  headers : HeaderMap := ∅
  deriving DecidableEq

namespace HttpRequest

/-- The `if` chain of `setMethod`. -/
def methodOf (m : Bytes) : Method :=
  if m = ascii "GET" then .kGet
  else if m = ascii "POST" then .kPost
  else if m = ascii "HEAD" then .kHead
  else if m = ascii "PUT" then .kPut
  else if m = ascii "DELETE" then .kDelete
  else .kInvalid

/-- `setMethod(start, end)`: whether the method is known, and the request. -/
def setMethod (r : HttpRequest) (m : Bytes) : Except Fault (Bool × HttpRequest) :=
  if r.method = .kInvalid then
    .ok (methodOf m != .kInvalid, { r with method := methodOf m })
  else
    .error .assertion

/-- `methodString()`. -/
def methodString : Method → Bytes
  | .kGet => ascii "GET"
  | .kPost => ascii "POST"
  | .kHead => ascii "HEAD"
  | .kPut => ascii "PUT"
  | .kDelete => ascii "DELETE"
  | .kInvalid => ascii "UNKNOWN"

/-- `setVersion(v)`. -/
def setVersion (r : HttpRequest) (v : Version) : HttpRequest := { r with version := v }

/-- `setPath(start, end)`. -/
def setPath (r : HttpRequest) (p : Bytes) : HttpRequest := { r with path := p }

/-- `setQuery(start, end)`. -/
def setQuery (r : HttpRequest) (q : Bytes) : HttpRequest := { r with query := q }

/-- `setBody(body)`. -/
def setBody (r : HttpRequest) (b : Bytes) : HttpRequest := { r with body := b }

/-- `setReceiveTime(t)`. -/
def setReceiveTime (r : HttpRequest) (t : Timestamp) : HttpRequest := { r with receiveTime := t }

/-- The value `addHeader` stores: `[colon + 1, end)` without the white space around it. -/
def trim (xs : Bytes) : Bytes := (xs.dropWhile isspace).rdropWhile isspace

/-- `addHeader(start, colon, end)`, of `field = [start, colon)` and `after = [colon + 1, end)`. -/
def addHeader (r : HttpRequest) (field after : Bytes) : HttpRequest :=
  { r with headers := r.headers.insert field (trim after) }

/-- `getHeader(field)`: the empty string when there is none. -/
def getHeader (r : HttpRequest) (field : Bytes) : Bytes := r.headers[field]?.getD []

/-- The text of a known method names it. -/
theorem methodOf_methodString {m : Method} (h : m ≠ .kInvalid) : methodOf (methodString m) = m := by
  cases m <;> first | exact absurd rfl h | decide

end HttpRequest

/-! ## `std::stoi` -/

/-- The value of `digits` with its sign, if it is an `int`. -/
def stoiDigits (neg : Bool) (digits : Bytes) : Except Fault Int :=
  if digits = [] then .error .invalidArgument
  else
    let z : Int := if neg then -digitsValue digits else digitsValue digits
    if -2 ^ 31 ≤ z ∧ z < 2 ^ 31 then .ok z else .error .outOfRange

/-- `std::stoi`: white space, a sign, and the longest run of digits; what follows is ignored. -/
def stoi (s : Bytes) : Except Fault Int :=
  match s.dropWhile isspace with
  | 45 :: rest => stoiDigits true (rest.takeWhile isdigit)
  | 43 :: rest => stoiDigits false (rest.takeWhile isdigit)
  | rest => stoiDigits false (rest.takeWhile isdigit)

theorem stoiDigits_error {neg : Bool} {digits : Bytes} {f : Fault}
    (h : stoiDigits neg digits = .error f) : f = .invalidArgument ∨ f = .outOfRange := by
  unfold stoiDigits at h
  split at h
  · exact Or.inl (Except.error.inj h).symm
  · simp only at h
    generalize (if neg = true then -(digitsValue digits : Int) else digitsValue digits) = z at h
    split at h
    · cases h
    · exact Or.inr (Except.error.inj h).symm

/-- What `std::stoi` throws. -/
theorem stoi_error {s : Bytes} {f : Fault} (h : stoi s = .error f) :
    f = .invalidArgument ∨ f = .outOfRange := by
  unfold stoi at h
  split at h <;> exact stoiDigits_error h

/-- A digit is neither white space nor a sign. -/
theorem isdigit_spec {d : UInt8} (h : isdigit d = true) :
    isspace d = false ∧ d ≠ 45 ∧ d ≠ 43 := by
  simp only [isdigit, Bool.and_eq_true, decide_eq_true_eq, UInt8.le_iff_toNat_le] at h
  have h₁ : 48 ≤ d.toNat := h.1
  refine ⟨?_, ?_, ?_⟩
  · simp only [isspace, Bool.or_eq_false_iff, Bool.and_eq_false_iff, beq_eq_false_iff_ne,
      decide_eq_false_iff_not, UInt8.le_iff_toNat_le]
    refine ⟨fun e => ?_, Or.inr fun h₃ => ?_⟩
    · rw [e] at h₁
      exact absurd h₁ (by decide)
    · have h₃' : d.toNat ≤ 13 := h₃
      omega
  · rintro rfl
    exact absurd h₁ (by decide)
  · rintro rfl
    exact absurd h₁ (by decide)

/-- `stoi` of a run of digits. -/
theorem stoi_digits {ds : Bytes} (hne : ds ≠ []) (hdig : ∀ d ∈ ds, isdigit d = true) :
    stoi ds =
      if digitsValue ds < 2 ^ 31 then .ok (digitsValue ds : Int) else .error .outOfRange := by
  have hread : stoiDigits false (ds.takeWhile isdigit) =
      if digitsValue ds < 2 ^ 31 then .ok (digitsValue ds : Int) else .error .outOfRange := by
    rw [List.takeWhile_eq_self_iff.mpr hdig, stoiDigits, if_neg hne]
    simp only [Bool.false_eq_true, if_false]
    by_cases h : digitsValue ds < 2 ^ 31
    · rw [if_pos h, if_pos (by omega)]
    · rw [if_neg h, if_neg (by omega)]
  cases ds with
  | nil => exact absurd rfl hne
  | cons d ds =>
    obtain ⟨hsp, h₁, h₂⟩ := isdigit_spec (hdig d List.mem_cons_self)
    unfold stoi
    rw [List.dropWhile_cons_of_neg (by rw [hsp]; exact Bool.false_ne_true)]
    split
    · rename_i heq
      exact absurd (List.cons.inj heq).1 h₁
    · rename_i heq
      exact absurd (List.cons.inj heq).1 h₂
    · exact hread

/-- **`stoi` reads back a printed length.** -/
theorem stoi_decimal {n : Nat} (h : n < 2 ^ 31) : stoi (decimal n) = .ok n := by
  rw [stoi_digits (decimal_ne_nil n) fun d => isdigit_of_mem_decimal, digitsValue_decimal, if_pos h]

end SimpleHttpServer
