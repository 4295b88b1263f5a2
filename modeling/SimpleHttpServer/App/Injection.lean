import SimpleHttpServer.App.OnRequest

/-!
# User input in SQL texts

A value keeps inside its literal if it has no quote and no backslash. `Program.Uses` speaks about
every text that `onRequest` can pass to `mysql_real_query`, whatever the files and the database
answer.

`/register` validates both values before it asks the database. `/login` asks first and validates
the answer with the values.

* **`getQueryRes_intended_iff`**: a SELECT is the intended one exactly if the username is literal;
* **`queries_intended_iff`**: the route, and the form, that let other texts through;
* `login_injection_example`: one of them.
-/

namespace SimpleHttpServer

open Lib

/-- The literal that a value stands in ends where the code closes it: no `'` and no backslash. -/
def Literal (value : Bytes) : Prop := 39 ∉ value ∧ 92 ∉ value

instance (value : Bytes) : Decidable (Literal value) :=
  decidable_of_iff (39 ∉ value ∧ 92 ∉ value) Iff.rfl

/-- One of the two intended statements. -/
def Intended (query : Bytes) : Prop :=
  (∃ username, Literal username ∧ query = selectQuery username) ∨
    ∃ username userpasswd, Literal username ∧ Literal userpasswd ∧
      query = insertQuery username userpasswd

section

variable {Conn : Type}

/-- If the call is a query, its text is intended. -/
def QueryIntended : ExternalCall Conn → Prop
  | .realQuery _ query => Intended query
  | _ => True

/-- A valid value is literal. -/
theorem literal_of_validate {s : Bytes} (h : validateString s = true) : Literal s :=
  ⟨not_mem_of_validate h (by decide), not_mem_of_validate h (by decide)⟩

theorem intended_selectQuery {username : Bytes} :
    Intended (selectQuery username) ↔ Literal username := by
  constructor
  · rintro (⟨u, hu, heq⟩ | ⟨u, p, -, -, heq⟩)
    · rwa [selectQuery_injective heq]
    · exact absurd heq (selectQuery_ne_insertQuery _ _ _)
  · exact fun h => .inl ⟨username, h, rfl⟩

/-! ## The calls of each function -/

theorem orAbort_uses {α β : Type} {x : Except Abort α} {f : α → Handler Conn β}
    (hf : ∀ a, x = .ok a → (f a).Uses QueryIntended) : (orAbort x >>= f).Uses QueryIntended := by
  cases x with
  | ok a => exact hf a rfl
  | error why => exact ⟨trivial, nofun⟩

theorem readRow_uses (fields : List (Option Bytes)) :
    (readRow fields : Handler Conn (List Bytes)).Uses QueryIntended := by
  unfold readRow
  cases fields.mapM id with
  | some fields => trivial
  | none => exact ⟨trivial, nofun⟩

theorem fileToString_uses (filename : Bytes) (resp : HttpResponse) :
    (fileToString filename resp : Handler Conn HttpResponse).Uses QueryIntended := by
  refine Program.Uses.bind (Program.uses_perform trivial) fun size => ?_
  cases size with
  | none => trivial
  | some size =>
    refine Program.Uses.bind (Program.uses_perform trivial) fun mapFile => ?_
    cases mapFile with
    | some mapFile => trivial
    | none => exact Program.Uses.ite (fun _ => trivial) fun _ => ⟨trivial, nofun⟩

/-- **The SELECT is intended exactly if the username is literal.** -/
theorem getQueryRes_intended_iff [Inhabited Conn] {username : Bytes} :
    (getQueryRes username : Handler Conn (List Bytes)).Uses QueryIntended ↔ Literal username := by
  constructor
  · intro h
    -- with a connection, the query is the next call
    have hquery : QueryIntended (.realQuery (default : Conn) (selectQuery username)) :=
      (h.2 (some default)).1
    exact intended_selectQuery.mp hquery
  · intro h
    refine Program.Uses.bind (Program.uses_perform trivial) fun sqlconn => ?_
    cases sqlconn with
    | none => trivial
    | some sqlconn =>
      refine Program.Uses.bind (Program.uses_perform (intended_selectQuery.mpr h)) fun answer => ?_
      cases answer with
      | error => exact Program.Uses.bind (Program.uses_perform trivial) fun _ => trivial
      | noResult => exact ⟨trivial, nofun⟩
      | noRow => exact Program.Uses.bind (Program.uses_perform trivial) fun _ => trivial
      | row fields =>
        exact Program.Uses.bind (readRow_uses fields) fun _ =>
          Program.Uses.bind (Program.uses_perform trivial) fun _ => trivial

theorem insertNewUser_uses [Inhabited Conn] {username userpasswd : Bytes}
    (hname : Literal username) (hpasswd : Literal userpasswd) :
    (insertNewUser username userpasswd : Handler Conn Bool).Uses QueryIntended := by
  refine Program.Uses.bind (getQueryRes_intended_iff.mpr hname) fun preQuery => ?_
  refine Program.Uses.ite (fun _ => trivial) fun _ => ?_
  refine Program.Uses.bind (Program.uses_perform trivial) fun sqlconn => ?_
  cases sqlconn with
  | none => trivial
  | some sqlconn =>
    have hquery : QueryIntended (.realQuery sqlconn (insertQuery username userpasswd)) :=
      .inr ⟨username, userpasswd, hname, hpasswd, rfl⟩
    refine Program.Uses.bind (Program.uses_perform hquery) fun answer => ?_
    cases answer <;> exact Program.Uses.bind (Program.uses_perform trivial) fun _ => trivial

/-! ## The two routes -/

/-- The form gives a username that is not literal. -/
def Escapes (body : Bytes) : Prop :=
  ∃ username userpasswd, splitForm body = .ok (some (username, userpasswd)) ∧ ¬ Literal username

theorem register_uses [Inhabited Conn] (req : HttpRequest) (resp : HttpResponse)
    (hpost : req.method = .kPost) (hpath : req.path = ascii "/register") :
    (onRequest req resp : Handler Conn HttpResponse).Uses QueryIntended := by
  rw [onRequest_register hpost hpath]
  refine orAbort_uses fun form _ => ?_
  cases form with
  | none => exact fileToString_uses _ _
  | some form =>
    obtain ⟨username, userpasswd⟩ := form
    refine Program.Uses.ite (fun hvalid => ?_) fun _ => fileToString_uses _ _
    rw [Bool.and_eq_true] at hvalid
    refine Program.Uses.bind (insertNewUser_uses (literal_of_validate hvalid.1)
      (literal_of_validate hvalid.2)) fun inserted => ?_
    exact Program.Uses.ite (fun _ => fileToString_uses _ _) fun _ => fileToString_uses _ _

theorem login_uses_iff [Inhabited Conn] (req : HttpRequest) (resp : HttpResponse)
    (hpost : req.method = .kPost) (hpath : req.path = ascii "/login") :
    (onRequest req resp : Handler Conn HttpResponse).Uses QueryIntended ↔ ¬ Escapes req.body := by
  rw [onRequest_login hpost hpath]
  constructor
  · rintro h ⟨username, userpasswd, hsplit, hnot⟩
    rw [hsplit] at h
    exact hnot (getQueryRes_intended_iff.mp (Program.Uses.left h))
  · intro hnot
    refine orAbort_uses fun form hform => ?_
    cases form with
    | none => exact fileToString_uses _ _
    | some form =>
      obtain ⟨username, userpasswd⟩ := form
      have hliteral : Literal username := by
        by_contra hbad
        exact hnot ⟨username, userpasswd, hform, hbad⟩
      refine Program.Uses.bind (getQueryRes_intended_iff.mpr hliteral) fun queryRes => ?_
      refine orAbort_uses fun ok _ => ?_
      exact Program.Uses.ite (fun _ => fileToString_uses _ _) fun _ => fileToString_uses _ _

/-- **Which requests keep every SQL text intended.** All of them to `/register`, and to `/login`
those whose form gives no username with a quote or a backslash. For a body of less than `2 ^ 31`
bytes the form is that of `FormBody`. -/
theorem queries_intended_iff [Inhabited Conn] (req : HttpRequest) (resp : HttpResponse)
    (hpost : req.method = .kPost)
    (hpath : req.path = ascii "/login" ∨ req.path = ascii "/register") :
    ((onRequest req resp : Handler Conn HttpResponse).Uses QueryIntended ↔
      ¬(req.path = ascii "/login" ∧ Escapes req.body)) ∧
    (req.body.length < 2 ^ 31 →
      (Escapes req.body ↔
        ∃ username userpasswd, FormBody req.body username userpasswd ∧ ¬ Literal username)) := by
  constructor
  · rcases hpath with hlogin | hregister
    · rw [login_uses_iff req resp hpost hlogin, hlogin]
      exact not_congr (iff_and_self.mpr fun _ => rfl)
    · refine iff_of_true (register_uses req resp hpost hregister) fun hlogin => ?_
      exact absurd (hregister.symm.trans hlogin.1) (by decide)
  · intro hlen
    unfold Escapes
    simp only [splitForm_eq_some_iff hlen]

/-- A registration with a quote in its username. -/
theorem queries_intended_iff_example :
    (onRequest { method := .kPost, path := ascii "/register", body := ascii "u=o'neil&p=secret" }
      { closeConnection := false } : Handler Nat HttpResponse).Uses QueryIntended := by
  obtain ⟨hiff, -⟩ := @queries_intended_iff Nat _
    { method := .kPost, path := ascii "/register", body := ascii "u=o'neil&p=secret" }
    { closeConnection := false } rfl (.inr rfl)
  exact hiff.mpr fun hlogin => absurd hlogin.1 (by decide)

/-- **A login can change the shape of the statement**: the username closes the literal. -/
theorem login_injection_example :
    ¬ ∀ (req : HttpRequest) (resp : HttpResponse), req.method = .kPost →
      req.path = ascii "/login" ∨ req.path = ascii "/register" →
      (onRequest req resp : Handler Nat HttpResponse).Uses QueryIntended := by
  intro h
  have huses := h { method := .kPost, path := ascii "/login", body := ascii "u=' or '1'='1&p=x" }
    { closeConnection := false } rfl (.inl rfl)
  have hform : splitForm (ascii "u=' or '1'='1&p=x") =
      .ok (some (ascii "' or '1'='1", ascii "x")) := by decide +kernel
  exact (login_uses_iff _ _ rfl rfl).mp huses ⟨_, _, hform, by decide +kernel⟩

end

end SimpleHttpServer
