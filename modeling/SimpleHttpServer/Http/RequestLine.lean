import SimpleHttpServer.Http.Segmentation

/-!
# The grammar of the request line

`processRequestLine` walks `[begin, end)` with three searches and two pointers. `walkRequestLine` is
that walk with pointers as indices: a range handed to an algorithm has to lie in the line, and a
byte read has to be one of the line, else the call ends in `overrun`.

* `walkRequestLine_eq`: the walk never leaves the line, and computes `processRequestLine`;
* `RequestLineOf` is the grammar `M SP T SP V`;
* **`walkRequestLine_accepts_iff`**: on a fresh request the walk accepts exactly the lines of the
  grammar, and stores the parts the line names.
-/

namespace SimpleHttpServer

open Lib Lib.Store Lib.Search

namespace HttpContext

/-! ## The walk -/

/-- The bytes of the range `[first, last)` an algorithm is given. -/
def rangeOf (line : Bytes) (first last : Nat) : Except Fault Bytes :=
  if first ≤ last ∧ last ≤ line.length then .ok (slice line first last) else .error .overrun

/-- `*p`. -/
def byteAt (line : Bytes) (p : Nat) : Except Fault UInt8 :=
  if h : p < line.length then .ok (line.get ⟨p, h⟩) else .error .overrun

/-- `std::find(first, last, c)`. -/
def findIn (line : Bytes) (first last : Nat) (c : UInt8) : Except Fault Nat :=
  match rangeOf line first last with
  | .error f => .error f
  | .ok xs => .ok (first + (breakAt c xs).1.length)

/-- `std::equal(first, last, literal)`: the literal ends with a NUL. -/
def equalIn (line : Bytes) (first last : Nat) (literal : Bytes) : Except Fault Bool :=
  match rangeOf line first last with
  | .error f => .error f
  | .ok xs =>
    if xs.length ≤ literal.length + 1 then .ok (xs == (literal ++ [0]).take xs.length)
    else .error .overrun

/-- The version part, from `start` on. -/
def walkVersion (c : HttpContext) (line : Bytes) (start : Nat) :
    Except Fault (Bool × HttpContext) :=
  let endp := line.length
  if endp - start = 8 then
    match equalIn line start (endp - 1) (ascii "HTTP/1.") with
    | .error f => .error f
    | .ok false => .ok (false, c)
    | .ok true =>
      match byteAt line (endp - 1) with
      | .error f => .error f
      | .ok last =>
        if last = 49 then .ok (true, { c with request := c.request.setVersion .kHttp11 })
        else if last = 48 then .ok (true, { c with request := c.request.setVersion .kHttp10 })
        else .ok (false, c)
  else .ok (false, c)

/-- The URL part `[start, space)`. -/
def walkTarget (c : HttpContext) (line : Bytes) (start space : Nat) : Except Fault HttpContext :=
  match findIn line start space 63 with
  | .error f => .error f
  | .ok question =>
    if question ≠ space then
      match rangeOf line start question with
      | .error f => .error f
      | .ok path =>
        match rangeOf line question space with
        | .error f => .error f
        | .ok query => .ok { c with request := (c.request.setPath path).setQuery query }
    else
      match rangeOf line start space with
      | .error f => .error f
      | .ok path => .ok { c with request := c.request.setPath path }

/-- Everything behind the method, from `start` on. -/
def walkAfterMethod (c : HttpContext) (line : Bytes) (start : Nat) :
    Except Fault (Bool × HttpContext) :=
  match findIn line start line.length 32 with
  | .error f => .error f
  | .ok space =>
    if space ≠ line.length then
      match walkTarget c line start space with
      | .error f => .error f
      | .ok c => walkVersion c line (space + 1)
    else .ok (false, c)

/-- `processRequestLine(begin, end)`, with `begin` the index `0`. -/
def walkRequestLine (c : HttpContext) (line : Bytes) : Except Fault (Bool × HttpContext) :=
  match findIn line 0 line.length 32 with
  | .error f => .error f
  | .ok space =>
    if space ≠ line.length then
      match rangeOf line 0 space with
      | .error f => .error f
      | .ok method =>
        match c.request.setMethod method with
        | .error f => .error f
        | .ok (false, request) => .ok (false, { c with request })
        | .ok (true, request) => walkAfterMethod { c with request } line (space + 1)
    else .ok (false, c)

/-! ## The walk stays in the line -/

/-- A range between two marks of a line is what stands between them. -/
theorem rangeOf_append (xs ys zs : Bytes) :
    rangeOf (xs ++ (ys ++ zs)) xs.length (xs.length + ys.length) = .ok ys := by
  have hle : xs.length + ys.length ≤ (xs ++ (ys ++ zs)).length := by
    simp only [List.length_append]
    omega
  rw [rangeOf, if_pos ⟨Nat.le_add_right _ _, hle⟩]
  simp [slice]

/-- A range that ends where the line does. -/
theorem rangeOf_end (xs ys : Bytes) : rangeOf (xs ++ ys) xs.length (xs ++ ys).length = .ok ys := by
  have h := rangeOf_append xs ys []
  rwa [List.append_nil, ← List.length_append] at h

theorem findIn_append (xs ys zs : Bytes) (c : UInt8) :
    findIn (xs ++ (ys ++ zs)) xs.length (xs.length + ys.length) c =
      .ok (xs.length + (breakAt c ys).1.length) := by
  rw [findIn, rangeOf_append]

theorem findIn_end (xs ys : Bytes) (c : UInt8) :
    findIn (xs ++ ys) xs.length (xs ++ ys).length c =
      .ok (xs.length + (breakAt c ys).1.length) := by
  rw [findIn, rangeOf_end]

/-- The search stops at the end exactly if it finds nothing. -/
theorem length_breakAt_eq {c : UInt8} {xs : Bytes} :
    (breakAt c xs).1.length = xs.length ↔ (breakAt c xs).2 = [] := by
  have h := congrArg List.length (breakAt_append c xs)
  rw [List.length_append] at h
  rw [← List.length_eq_zero_iff]
  omega

theorem equalIn_append (xs ys zs : Bytes) {literal : Bytes} (h : ys.length = literal.length) :
    equalIn (xs ++ (ys ++ zs)) xs.length (xs.length + ys.length) literal =
      .ok (ys == literal) := by
  rw [equalIn, rangeOf_append]
  simp only [h, List.take_left]
  rw [if_pos (Nat.le_succ _)]

theorem byteAt_append (xs ys : Bytes) (d : UInt8) :
    byteAt (xs ++ (ys ++ [d])) (xs.length + ys.length) = .ok d := by
  rw [byteAt, dif_pos (by simp)]
  simp

theorem walkVersion_eq (c : HttpContext) (before text : Bytes) :
    walkVersion c (before ++ text) before.length = .ok (c.processVersion text) := by
  have hlen : (before ++ text).length - before.length = text.length := by
    rw [List.length_append]
    omega
  unfold walkVersion processVersion
  simp only [hlen]
  by_cases h : text.length = 8
  · obtain ⟨xs, d, rfl⟩ : ∃ xs d, text = xs ++ [d] := by
      refine ⟨text.dropLast, text.getLast (by rintro rfl; cases h), ?_⟩
      exact (List.dropLast_append_getLast _).symm
    have hxs : xs.length = 7 := by simpa using h
    have hend : (before ++ (xs ++ [d])).length - 1 = before.length + xs.length := by simp
    have htake : (xs ++ [d]).take 7 = xs := by rw [← hxs, List.take_left]
    have hdrop : (xs ++ [d]).drop 7 = [d] := by rw [← hxs, List.drop_left]
    have hone : ([d] = ascii "1") ↔ d = 49 := by
      rw [show ascii "1" = [49] from rfl, List.cons.injEq, and_iff_left rfl]
    have hzero : ([d] = ascii "0") ↔ d = 48 := by
      rw [show ascii "0" = [48] from rfl, List.cons.injEq, and_iff_left rfl]
    have hequal := equalIn_append before xs [d] (show xs.length = (ascii "HTTP/1.").length from hxs)
    simp only [hend, hequal, byteAt_append, htake, hdrop, hone, hzero, h, true_and]
    by_cases he : xs = ascii "HTTP/1."
    · rw [if_pos he, beq_iff_eq.mpr he]
      by_cases h₁ : d = 49
      · simp [h₁]
      · by_cases h₀ : d = 48 <;> simp [h₁, h₀]
    · rw [if_pos trivial, if_neg he, beq_eq_false_iff_ne.mpr he]
  · rw [if_neg h, if_neg fun hv => h hv.1]

theorem walkTarget_eq (c : HttpContext) (before target after : Bytes) :
    walkTarget c (before ++ (target ++ after)) before.length (before.length + target.length) =
      .ok (c.processTarget target) := by
  unfold walkTarget processTarget
  rw [findIn_append]
  have happ := breakAt_append 63 target
  have hend := @length_breakAt_eq 63 target
  rcases hb : breakAt 63 target with ⟨path, _ | ⟨q, query⟩⟩
  · rw [hb] at happ hend
    simp only [hend.mpr rfl, ne_eq, not_true, if_false, rangeOf_append]
    rw [List.append_nil] at happ
    rw [← happ]
  · rw [hb] at happ hend
    simp only at happ hend ⊢
    have hne : before.length + path.length ≠ before.length + target.length := fun e =>
      absurd (hend.mp (by omega)) (by simp)
    have hlen : target.length = path.length + (q :: query).length := by
      rw [← happ, List.length_append]
    have hpath := rangeOf_append before path (q :: query ++ after)
    have hquery := rangeOf_append (before ++ path) (q :: query) after
    rw [← List.append_assoc path, happ] at hpath
    rw [List.append_assoc, ← List.append_assoc path, happ, List.length_append, Nat.add_assoc,
      ← hlen] at hquery
    rw [if_pos hne, hpath, hquery]

theorem walkAfterMethod_eq (c : HttpContext) (before after : Bytes) :
    walkAfterMethod c (before ++ after) before.length =
      match breakAt 32 after with
      | (_, []) => .ok (false, c)
      | (target, _ :: version) => .ok (processVersion (processTarget c target) version) := by
  unfold walkAfterMethod
  rw [findIn_end]
  have happ := breakAt_append 32 after
  have hend := @length_breakAt_eq 32 after
  rcases hb : breakAt 32 after with ⟨target, _ | ⟨sp, version⟩⟩
  · rw [hb] at hend
    simp only [hend.mpr rfl, List.length_append, ne_eq, not_true, if_false]
  · rw [hb] at happ hend
    simp only at happ hend ⊢
    have hne : before.length + target.length ≠ (before ++ after).length := by
      intro e
      rw [List.length_append] at e
      exact absurd (hend.mp (by omega)) (by simp)
    have htarget := walkTarget_eq c before target (sp :: version)
    have hversion := walkVersion_eq (processTarget c target) (before ++ (target ++ [sp])) version
    rw [happ] at htarget
    rw [List.append_assoc, List.append_assoc, List.singleton_append, happ, List.length_append,
      List.length_append, List.length_singleton, ← Nat.add_assoc] at hversion
    rw [if_pos hne, htarget]
    exact hversion

/-- **The walk stays in the line**: it computes `processRequestLine`, which has no pointers. -/
theorem walkRequestLine_eq (c : HttpContext) (line : Bytes) :
    walkRequestLine c line = c.processRequestLine line := by
  unfold walkRequestLine processRequestLine
  have hfind := findIn_end [] line 32
  rw [List.nil_append, List.length_nil, Nat.zero_add] at hfind
  have happ := breakAt_append 32 line
  have hend := @length_breakAt_eq 32 line
  rw [hfind]
  rcases hb : breakAt 32 line with ⟨method, _ | ⟨sp, afterMethod⟩⟩
  · rw [hb] at hend
    simp only [hend.mpr rfl, ne_eq, not_true, if_false]
  · rw [hb] at happ hend
    simp only at happ hend ⊢
    have hne : method.length ≠ line.length := fun e => absurd (hend.mp e) (by simp)
    have hmethod := rangeOf_append [] method (sp :: afterMethod)
    rw [List.nil_append, List.length_nil, Nat.zero_add, happ] at hmethod
    rw [if_pos hne, hmethod]
    simp only
    cases c.request.setMethod method with
    | error f => rfl
    | ok r =>
      obtain ⟨known, request⟩ := r
      cases known with
      | false => rfl
      | true =>
        have hafter := walkAfterMethod_eq { c with request } (method ++ [sp]) afterMethod
        rw [List.append_assoc, List.singleton_append, happ, List.length_append,
          List.length_singleton] at hafter
        exact hafter

/-! ## The grammar -/

/-- `M SP T SP V`. -/
structure RequestLineOf (line : Bytes) (m : Method) (target : Bytes) (v : Version) : Prop where
  method_known : m ≠ .kInvalid
  version_known : v ≠ .kUnknown
  target_noSpace : 32 ∉ target
  eq : line = HttpRequest.methodString m ++ 32 :: (target ++ 32 :: versionString v)

instance (line : Bytes) (m : Method) (target : Bytes) (v : Version) :
    Decidable (RequestLineOf line m target v) :=
  decidable_of_iff (m ≠ .kInvalid ∧ v ≠ .kUnknown ∧ 32 ∉ target ∧
      line = HttpRequest.methodString m ++ 32 :: (target ++ 32 :: versionString v))
    ⟨fun ⟨hm, hv, ht, heq⟩ => ⟨hm, hv, ht, heq⟩, fun ⟨hm, hv, ht, heq⟩ => ⟨hm, hv, ht, heq⟩⟩

/-- A line names one method. -/
theorem RequestLineOf.method_unique {line target target' : Bytes} {m m' : Method} {v v' : Version}
    (h : RequestLineOf line m target v) (h' : RequestLineOf line m' target' v') : m = m' := by
  have hsplit : ∀ {m : Method} {target : Bytes} {v : Version}, RequestLineOf line m target v →
      (breakAt 32 line).1 = HttpRequest.methodString m := by
    intro m target v h
    have hsp : (32 : UInt8) ∉ HttpRequest.methodString m := by
      cases m <;> decide
    rw [h.eq, breakAt_append_cons hsp]
  have hstring := (hsplit h).symm.trans (hsplit h')
  rw [← HttpRequest.methodOf_methodString h.method_known, hstring,
    HttpRequest.methodOf_methodString h'.method_known]

/-- A request on which `processRequestLine` has stored the parts of a line. -/
def lineParts (req : HttpRequest) (m : Method) (target : Bytes) (v : Version) : HttpRequest :=
  { req with
    method := m
    version := v
    path := (breakAt 63 target).1
    query := (breakAt 63 target).2 }

theorem processTarget_headers (c : HttpContext) (target : Bytes) :
    (c.processTarget target).request.headers = c.request.headers := by
  unfold processTarget
  split <;> rfl

/-- A line of the grammar is accepted by a request without a method. -/
theorem processRequestLine_of_line {c : HttpContext} (hm : c.request.method = .kInvalid)
    {line target : Bytes} {m : Method} {v : Version} (h : RequestLineOf line m target v) :
    c.processRequestLine line = .ok ((processTarget
      { c with request := { c.request with method := m } } target).processVersion
        (versionString v)) := by
  have hsp : (32 : UInt8) ∉ HttpRequest.methodString m := by
    cases m <;> decide
  have hset : c.request.setMethod (HttpRequest.methodString m) =
      .ok (true, { c.request with method := m }) := by
    simp [HttpRequest.setMethod, HttpRequest.methodOf_methodString h.method_known, h.method_known,
      hm]
  rw [h.eq]
  unfold processRequestLine
  rw [breakAt_append_cons hsp]
  simp only [hset, breakAt_append_cons h.target_noSpace]

/-- What it stores, if there is no query either. -/
theorem processRequestLine_parts {c : HttpContext} (hm : c.request.method = .kInvalid)
    (hq : c.request.query = []) {line target : Bytes} {m : Method} {v : Version}
    (h : RequestLineOf line m target v) :
    c.processRequestLine line =
      .ok (true, { c with request := lineParts c.request m target v }) := by
  have htarget := RequestMsg.processTarget_eq
    { c with request := { c.request with method := m } } hq target
  rw [processRequestLine_of_line hm h, htarget,
    RequestMsg.processVersion_versionString _ h.version_known]
  rfl

/-- A known method is the one its text names. -/
theorem methodString_methodOf {m : Bytes} (h : HttpRequest.methodOf m ≠ .kInvalid) :
    HttpRequest.methodString (HttpRequest.methodOf m) = m := by
  unfold HttpRequest.methodOf at h ⊢
  repeat' split
  all_goals first | (rename_i hm; exact hm.symm) | skip
  simp_all

/-- An accepted line is one of the grammar. -/
theorem requestLineOf_of_accepted {c c' : HttpContext} {line : Bytes}
    (h : c.processRequestLine line = .ok (true, c')) :
    ∃ m target v, RequestLineOf line m target v := by
  unfold processRequestLine HttpRequest.setMethod at h
  split at h
  · cases h
  · rename_i method sp afterMethod hb
    split at h
    · cases h
    · cases h
    · rename_i request hset
      split at h
      · cases h
      · rename_i target sp' version hb'
        obtain ⟨v, hv, rfl⟩ := versionString_of_processVersion
          (congrArg Prod.fst (Except.ok.inj h))
        have hknown : HttpRequest.methodOf method ≠ .kInvalid := by
          split at hset
          · simpa using (Prod.mk.inj (Except.ok.inj hset)).1
          · cases hset
        have htarget := not_mem_breakAt_fst 32 afterMethod
        rw [hb'] at htarget
        have happ := breakAt_append 32 line
        have happ' := breakAt_append 32 afterMethod
        rw [hb] at happ
        rw [hb'] at happ'
        refine ⟨HttpRequest.methodOf method, target, v, hknown, hv, htarget, ?_⟩
        rw [methodString_methodOf hknown, ← happ, ← happ', breakAt_snd_cons (congrArg Prod.snd hb),
          breakAt_snd_cons (congrArg Prod.snd hb')]

/-- What an accepted line was, and what it leaves. -/
theorem accepted_spec {c c' : HttpContext} {line : Bytes}
    (h : c.processRequestLine line = .ok (true, c')) :
    c.request.method = .kInvalid ∧ c'.request.headers = c.request.headers ∧
      ∃ target v, RequestLineOf line c'.request.method target v := by
  obtain ⟨m, target, v, hline⟩ := requestLineOf_of_accepted h
  have hm : c.request.method = .kInvalid := by
    by_contra hset
    have hsp : 32 ∈ line := by
      rw [hline.eq]
      simp
    unfold processRequestLine at h
    split at h
    · cases h
    · rw [HttpRequest.setMethod, if_neg hset] at h
      cases h
  rw [processRequestLine_of_line hm hline,
    RequestMsg.processVersion_versionString _ hline.version_known] at h
  obtain rfl := (Prod.mk.inj (Except.ok.inj h)).2
  have hmethod : (processTarget { c with request := { c.request with method := m } }
      target).request.method = m := (processTarget_keeps _ target).2
  have hheaders : (processTarget { c with request := { c.request with method := m } }
      target).request.headers = c.request.headers := processTarget_headers _ target
  refine ⟨hm, hheaders, target, v, ?_⟩
  exact hmethod.symm ▸ hline

/-- **The walk accepts exactly the grammar.** On a fresh request it never leaves the line, accepts
the line if and only if it is one of the grammar, and then has stored the method and the version
named, as path the target up to its first `?`, and as query the rest. -/
theorem walkRequestLine_accepts_iff (state : HttpRequestParseState) (line : Bytes) :
    ∃ accepted c, walkRequestLine ⟨state, {}⟩ line = .ok (accepted, c) ∧
      (accepted = true ↔ ∃ m target v, RequestLineOf line m target v) ∧
      ∀ m target v, RequestLineOf line m target v →
        c.request.method = m ∧ c.request.version = v ∧
        c.request.path = target.takeWhile (· ≠ 63) ∧
        c.request.query = target.dropWhile (· ≠ 63) := by
  rw [walkRequestLine_eq]
  cases hp : processRequestLine ⟨state, {}⟩ line with
  | error f => exact absurd hp (processRequestLine_ne_error rfl line f)
  | ok r =>
    obtain ⟨accepted, c⟩ := r
    refine ⟨accepted, c, rfl, ?_, ?_⟩
    · constructor
      · rintro rfl
        exact requestLineOf_of_accepted hp
      · rintro ⟨m, target, v, h⟩
        have hline := processRequestLine_parts (c := ⟨state, {}⟩) rfl rfl h
        exact (Prod.mk.inj (Except.ok.inj (hp.symm.trans hline))).1
    · intro m target v h
      have hline := processRequestLine_parts (c := ⟨state, {}⟩) rfl rfl h
      obtain rfl := (Prod.mk.inj (Except.ok.inj (hp.symm.trans hline))).2
      exact ⟨rfl, rfl, rfl, rfl⟩

end HttpContext

end SimpleHttpServer
