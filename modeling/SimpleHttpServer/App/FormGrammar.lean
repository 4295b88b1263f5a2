import SimpleHttpServer.App.OnRequest

/-!
# The grammar of a form body

A form body is `k1=u&k2=p`. Both routes look for the first `=`, the first `&` and the first `=`
behind that `&`, and not at their order. So they also take `k1&k2=x` for a form, whose username has
a negative length and goes on to the end of the body: it and the password are both `x`.

* `IsForm` and `Reversed` are the two shapes, of which a body has at most one;
* **`splitByGrammar_iff`**: a body is split by the grammar, or refused without a call of the
  database, if and only if it is not of the second shape, or goes to `/register` and `x` is no valid
  value;
* `not_splitByGrammar_example`: a login whose `&` stands in front of its `=`.
-/

namespace SimpleHttpServer

open Lib

/-- `k1=username&k2=userpasswd`. -/
def IsForm (body username userpasswd : Bytes) : Prop :=
  ∃ k₁ k₂, body = k₁ ++ equalsSign :: username ++ ampersand :: k₂ ++ equalsSign :: userpasswd ∧
    equalsSign ∉ k₁ ∧ ampersand ∉ k₁ ∧ ampersand ∉ username ∧ equalsSign ∉ k₂

/-- `k1&k2=value`, without an `=` in front of the `&`. -/
def Reversed (body value : Bytes) : Prop :=
  ∃ k₁ k₂, body = k₁ ++ ampersand :: k₂ ++ equalsSign :: value ∧
    equalsSign ∉ k₁ ∧ ampersand ∉ k₁ ∧ equalsSign ∉ k₂

variable {body username userpasswd value : Bytes}

theorem formBody_iff : FormBody body username userpasswd ↔
    IsForm body username userpasswd ∨ Reversed body username ∧ userpasswd = username := by
  refine or_congr Iff.rfl ⟨?_, ?_⟩
  · rintro ⟨k₁, k₂, hbody, hsame, hrest⟩
    exact ⟨⟨k₁, k₂, hbody, hrest⟩, hsame⟩
  · rintro ⟨⟨k₁, k₂, hbody, hrest⟩, hsame⟩
    exact ⟨k₁, k₂, hbody, hsame, hrest⟩

/-- Neither separator. -/
def plain (c : UInt8) : Bool := c != equalsSign && c != ampersand

/-- What stands behind the bytes in front of the first separator. -/
theorem dropWhile_plain {key : Bytes} (he : equalsSign ∉ key) (ha : ampersand ∉ key)
    {sep : UInt8} (hsep : plain sep = false) (rest : Bytes) :
    (key ++ sep :: rest).dropWhile plain = sep :: rest := by
  have hkey : ∀ c ∈ key, plain c = true := by
    intro c hc
    rw [plain, Bool.and_eq_true, bne_iff_ne, bne_iff_ne]
    exact ⟨fun h => he (h ▸ hc), fun h => ha (h ▸ hc)⟩
  rw [List.dropWhile_append_of_pos hkey, List.dropWhile_cons_of_neg (by rw [hsep]; decide)]

/-- **The two shapes exclude each other**: their first separators differ. -/
theorem IsForm.not_reversed (h : IsForm body username userpasswd) : ¬ Reversed body value := by
  rintro ⟨l₁, l₂, hbody', he', ha', -⟩
  obtain ⟨k₁, k₂, hbody, he, ha, -⟩ := h
  rw [List.append_assoc, List.append_assoc, List.cons_append] at hbody
  rw [List.append_assoc, List.cons_append] at hbody'
  have hdrop := dropWhile_plain he ha (by decide : plain equalsSign = false)
    (username ++ (ampersand :: k₂ ++ equalsSign :: userpasswd))
  rw [← hbody, hbody', dropWhile_plain he' ha' (by decide)] at hdrop
  exact absurd (List.cons.inj hdrop).1 (by decide)

/-- A body of the second shape is split, into the same value twice. -/
theorem Reversed.splitForm (h : Reversed body value) (hlen : body.length < 2 ^ 31) :
    splitForm body = .ok (some (value, value)) :=
  splitForm_of_formBody hlen (formBody_iff.mpr (.inr ⟨h, rfl⟩))

/-! ## Refusals -/

section

variable {Conn : Type} {req : HttpRequest} {resp : HttpResponse}

/-- The request is answered with one of the pages for a refusal, and nothing else is done. -/
def Refused (Conn : Type) (req : HttpRequest) (resp : HttpResponse) : Prop :=
  ∃ page ∈ [ascii "../root/loginfail.html", ascii "../root/loginfailuser404.html",
      ascii "../root/registerfail.html"],
    (onRequest req resp : Handler Conn HttpResponse) = fileToString page resp

theorem refused_of_none (hpost : req.method = .kPost)
    (hpath : req.path = ascii "/login" ∨ req.path = ascii "/register")
    (hnone : splitForm req.body = .ok none) : Refused Conn req resp := by
  rcases hpath with hlogin | hregister
  · refine ⟨_, List.mem_cons_self, ?_⟩
    rw [onRequest_login hpost hlogin, orAbort_ok hnone]
    rfl
  · refine ⟨_, List.mem_cons_of_mem _ List.mem_cons_self, ?_⟩
    rw [onRequest_register hpost hregister, orAbort_ok hnone]
    rfl

/-- A login with a form asks the database. -/
theorem not_refused_login (hpost : req.method = .kPost) (hlogin : req.path = ascii "/login")
    (hsplit : splitForm req.body = .ok (some (username, userpasswd))) :
    ¬ Refused Conn req resp := by
  rintro ⟨page, -, hpage⟩
  rw [onRequest_login hpost hlogin, orAbort_ok hsplit] at hpage
  exact nomatch (Program.call.inj hpage).1

/-- A registration with a form asks it if both values are valid. -/
theorem refused_register_iff (hpost : req.method = .kPost)
    (hregister : req.path = ascii "/register")
    (hsplit : splitForm req.body = .ok (some (username, userpasswd))) :
    Refused Conn req resp ↔ (validateString username && validateString userpasswd) = false := by
  unfold Refused
  rw [onRequest_register hpost hregister, orAbort_ok hsplit, registerReply]
  constructor
  · rintro ⟨page, -, hpage⟩
    by_contra hvalid
    rw [if_pos (by simpa using hvalid)] at hpage
    exact nomatch (Program.call.inj hpage).1
  · intro hinvalid
    refine ⟨_, List.mem_cons_of_mem _ (List.mem_cons_of_mem _ List.mem_cons_self), ?_⟩
    rw [hinvalid]
    exact if_neg Bool.false_ne_true

/-! ## What is split -/

/-- The body has the form and is split into its two values, or it does not have the form and is
refused without a lookup or an insertion. -/
def SplitByGrammar (Conn : Type) (req : HttpRequest) (resp : HttpResponse) : Prop :=
  (∃ username userpasswd, IsForm req.body username userpasswd ∧
    splitForm req.body = .ok (some (username, userpasswd))) ∨
  (∀ username userpasswd, ¬ IsForm req.body username userpasswd) ∧ Refused Conn req resp

/-- A reversed body is handled by the grammar exactly if it is a registration with an invalid
value. -/
theorem Reversed.split_iff (h : Reversed req.body value) (hpost : req.method = .kPost)
    (hpath : req.path = ascii "/login" ∨ req.path = ascii "/register")
    (hlen : req.body.length < 2 ^ 31) :
    SplitByGrammar Conn req resp ↔
      req.path = ascii "/register" ∧ validateString value = false := by
  have hsplit := h.splitForm hlen
  have hnot : ∀ u p, ¬ IsForm req.body u p := fun u p hform => hform.not_reversed h
  have hrefused : SplitByGrammar Conn req resp ↔ Refused Conn req resp := by
    refine ⟨fun hg => ?_, fun hr => .inr ⟨hnot, hr⟩⟩
    rcases hg with ⟨u, p, hform, -⟩ | ⟨-, hr⟩
    · exact absurd hform (hnot u p)
    · exact hr
  rw [hrefused]
  rcases hpath with hlogin | hregister
  · refine iff_of_false (not_refused_login hpost hlogin hsplit) ?_
    rintro ⟨hregister, -⟩
    exact absurd (hlogin.symm.trans hregister) (by decide)
  · rw [refused_register_iff hpost hregister hsplit, Bool.and_self, hregister]
    exact (and_iff_right rfl).symm

/-- **A form body is split exactly by its grammar if and only if** it does not have its `&` in front
of its first `=` (and another `=` behind the `&`), or it goes to `/register` and the value it would
be split into is not valid. -/
theorem splitByGrammar_iff (hpost : req.method = .kPost)
    (hpath : req.path = ascii "/login" ∨ req.path = ascii "/register")
    (hlen : req.body.length < 2 ^ 31) :
    SplitByGrammar Conn req resp ↔ ∀ value, Reversed req.body value →
      req.path = ascii "/register" ∧ validateString value = false := by
  constructor
  · exact fun hg value h => (h.split_iff hpost hpath hlen).mp hg
  · intro hall
    rcases formBody_or_none hlen with ⟨username, userpasswd, hform⟩ | hnone
    · rcases formBody_iff.mp hform with hform' | ⟨hreversed, -⟩
      · exact .inl ⟨username, userpasswd, hform', splitForm_of_formBody hlen hform⟩
      · exact (hreversed.split_iff hpost hpath hlen).mpr (hall _ hreversed)
    · have hno := (splitForm_eq_none_iff hlen).mp hnone
      exact .inr ⟨fun u p hform => hno u p (formBody_iff.mpr (.inl hform)),
        refused_of_none hpost hpath hnone⟩

/-- A password with separators in it. -/
theorem splitByGrammar_iff_example :
    SplitByGrammar Nat
      { method := .kPost, path := ascii "/login", body := ascii "u=alice&p=a&b=c" }
      { closeConnection := false } := by
  refine (splitByGrammar_iff rfl (.inl rfl) (by decide)).mpr fun value h => ?_
  have hform : IsForm (ascii "u=alice&p=a&b=c") (ascii "alice") (ascii "a&b=c") :=
    ⟨ascii "u", ascii "p", by decide, by decide, by decide, by decide, by decide⟩
  exact absurd h hform.not_reversed

/-- **A body with its `&` in front of its `=` is taken for a form**: the login asks for a user of
that name. -/
theorem not_splitByGrammar_example :
    ¬ ∀ (req : HttpRequest) (resp : HttpResponse), req.method = .kPost →
      req.path = ascii "/login" ∨ req.path = ascii "/register" → req.body.length < 2 ^ 31 →
      SplitByGrammar Nat req resp := by
  intro h
  have hreversed : Reversed (ascii "a&b=alice") (ascii "alice") :=
    ⟨ascii "a", ascii "b", by decide, by decide, by decide, by decide⟩
  have hg := h { method := .kPost, path := ascii "/login", body := ascii "a&b=alice" }
    { closeConnection := false } rfl (.inl rfl) (by decide)
  have hregister := (hreversed.split_iff rfl (.inl rfl) (by decide)).mp hg
  exact absurd hregister.1 (by decide)

end

end SimpleHttpServer
