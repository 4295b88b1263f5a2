import SimpleHttpServer.App.HandlerRuns
import SimpleHttpServer.Sql.Registration

/-!
# Whom a login admits

A login asks for the rows of the username that it has extracted, whatever that is, and looks at the
first one only if both values are valid. A valid value has no quote, no separator and no `NUL`, so
then the statement was the intended one. What the body has in front of its two `=` is not looked at,
and the password of the row is read as a C string.

* `TableAnswers table`: a SELECT for a valid username finds a row of `table`; for any other one it
  finds anything of at least three fields;
* **`login_admits`**: a run that answers with `index.html` has found a row with the two values, and
  a run for the only values of a user answers with it, if the database could be asked;
* `login_admits_more_example`: a password with a `NUL`, and a quote in the body.
-/

namespace SimpleHttpServer

open Lib Lib.Program

/-- What a SELECT for `username` can answer, if it is not refused. -/
def SelectAnswers (table : List UserRow) (username : Bytes) : QueryAnswer → Prop
  | .row fields =>
    3 ≤ fields.length ∧ (validateString username →
      ∃ row ∈ table, row.username = username ∧
        fields = [some row.id, some row.username, some row.password])
  | .noRow => validateString username → ∀ row ∈ table, row.username ≠ username
  | _ => True

section

variable {Conn : Type}

/-- The answers that the table allows; the files are free, and so are failures. -/
def TableAnswers (table : List UserRow) : ∀ op : ExternalCall Conn, op.Answer → Prop
  | .realQuery _ query, (answer : QueryAnswer) =>
    ∀ username, query = selectQuery username → SelectAnswers table username answer
  | _, _ => True

/-- No connection is obtained, or a query fails. -/
def Unavailable : HandlerEvent Conn → Prop
  | ⟨.getConnection, (sqlconn : Option Conn)⟩ => sqlconn = none
  | ⟨.realQuery _ _, (answer : QueryAnswer)⟩ => answer = .error ∨ answer = .noResult
  | _ => False

/-- The run ends with `fileToString(page, resp)`. -/
def AnsweredWith (page : Bytes) (resp : HttpResponse) (events : List (HandlerEvent Conn))
    (result : Option HttpResponse) : Prop :=
  ∃ before rest, events = before ++ rest ∧ FileRun page resp rest result

variable {table : List UserRow} {events before rest : List (HandlerEvent Conn)}
  {result : Option HttpResponse} {req : HttpRequest} {resp : HttpResponse}
  {page page' username userpasswd : Bytes}

/-! ## The page -/

/-- The call is `stat(page)`. -/
def StatOf (page : Bytes) : HandlerEvent Conn → Prop
  | ⟨.stat filename, _⟩ => filename = page
  | _ => False

theorem FileRun.stat (h : FileRun page resp events result) : ∃ e ∈ events, StatOf page e := by
  cases h <;> exact ⟨_, List.mem_cons_self, rfl⟩

theorem FileRun.stat_eq (h : FileRun page resp events result) :
    ∀ e ∈ events, StatOf page' e → page = page' := by
  refine List.forall_iff_forall_mem.mp ?_
  cases h with
  | absent => exact id
  | _ => exact ⟨id, nofun⟩

theorem QueryRun.no_stat {values : Option (List Bytes)} (h : QueryRun username events values) :
    ∀ e ∈ events, ¬ StatOf page e := by
  refine List.forall_iff_forall_mem.mp ?_
  cases h with
  | noConnection => exact id
  | noResult sqlconn => exact ⟨id, id⟩
  | nullField sqlconn hvalues => exact ⟨id, id⟩
  | _ => exact ⟨id, id, id⟩

/-- A run answers with one page. -/
theorem AnsweredWith.page_eq (before : List (HandlerEvent Conn))
    (h : AnsweredWith page' resp (before ++ rest) result)
    (hbefore : ∀ e ∈ before, ¬ StatOf page' e) (hfile : FileRun page resp rest result) :
    page = page' := by
  obtain ⟨before', rest', hsplit, hfile'⟩ := h
  obtain ⟨e, he, hstat⟩ := hfile'.stat
  have hmem : e ∈ before ++ rest := by
    rw [hsplit]
    exact List.mem_append_right before' he
  rcases List.mem_append.mp hmem with hmem | hmem
  · exact absurd hstat (hbefore e hmem)
  · exact hfile.stat_eq e hmem hstat

/-! ## The values -/

theorem length_le_of_validate {s : Bytes} (h : validateString s = true) : s.length ≤ 16 := by
  unfold validateString at h
  rw [Bool.and_eq_true, Bool.and_eq_true, decide_eq_true_eq, decide_eq_true_eq] at h
  exact h.1.2

theorem cString_of_validate {s : Bytes} (h : validateString s = true) : cString s = s := by
  refine List.takeWhile_eq_self_iff.mpr fun c hc => ?_
  rw [decide_eq_true_eq]
  rintro rfl
  exact not_mem_of_validate h (by decide) hc

/-- A login that succeeds. -/
theorem valid_of_loginSucceeds {values : List Bytes}
    (h : loginSucceeds username userpasswd values = .ok true) :
    validateString username = true ∧ validateString userpasswd = true ∧
      values[1]? = some username ∧ values[2]? = some userpasswd := by
  unfold loginSucceeds at h
  split at h
  · rename_i hvalid
    rw [Bool.and_eq_true, Bool.and_eq_true] at hvalid
    refine ⟨hvalid.1.1, hvalid.1.2, ?_⟩
    cases hname : values[1]? with
    | none => simp [hname] at h
    | some name =>
      simp only [hname] at h
      by_cases heq : username = name
      · rw [if_pos heq] at h
        cases hpasswd : values[2]? with
        | none => simp [hpasswd] at h
        | some passwd =>
          have hsame : userpasswd = passwd := by simpa [hpasswd] using h
          exact ⟨by rw [heq], by rw [hsame]⟩
      · rw [if_neg heq] at h
        exact absurd (Except.ok.inj h) Bool.false_ne_true
  · exact absurd (Except.ok.inj h) Bool.false_ne_true

theorem loginSucceeds_row (id : Bytes) (hname : validateString username = true)
    (hpasswd : validateString userpasswd = true) :
    loginSucceeds username userpasswd [id, username, userpasswd] = .ok true := by
  simp [loginSucceeds, hname, hpasswd]

/-! ## The row -/

/-- **What a run of `getQueryRes` finds for a valid username**: the values of a row of the table, as
C strings, or nothing. -/
theorem QueryRun.finds {values : Option (List Bytes)} (h : QueryRun username events values)
    (hanswers : ∀ e ∈ events, TableAnswers table e.1 e.2)
    (hvalid : validateString username = true) :
    (∃ row ∈ table, row.username = username ∧
        values = some [cString row.id, cString row.username, cString row.password]) ∨
      (values = some [] ∨ values = none) ∧
        ((∀ row ∈ table, row.username ≠ username) ∨ ∃ e ∈ events, Unavailable e) := by
  rw [← List.forall_iff_forall_mem] at hanswers
  cases h with
  | noConnection => exact .inr ⟨.inl rfl, .inr ⟨_, List.mem_cons_self, rfl⟩⟩
  | error sqlconn =>
    exact .inr ⟨.inl rfl, .inr ⟨_, List.mem_cons_of_mem _ List.mem_cons_self, .inl rfl⟩⟩
  | noResult sqlconn =>
    exact .inr ⟨.inr rfl, .inr ⟨_, List.mem_cons_of_mem _ List.mem_cons_self, .inr rfl⟩⟩
  | noRow sqlconn => exact .inr ⟨.inl rfl, .inl (hanswers.2.1 username rfl hvalid)⟩
  | row sqlconn hvalues =>
    obtain ⟨row, hmem, hname, rfl⟩ := (hanswers.2.1 username rfl).2 hvalid
    refine .inl ⟨row, hmem, hname, ?_⟩
    rw [← Option.some.inj hvalues]
    rfl
  | nullField sqlconn hvalues =>
    obtain ⟨row, -, -, rfl⟩ := (hanswers.2 username rfl).2 hvalid
    exact nomatch hvalues

/-! ## The login -/

/-- Where a run of a login with a form can end. -/
theorem login_ends (hpost : req.method = .kPost) (hlogin : req.path = ascii "/login")
    (h : (onRequest req resp : Handler Conn HttpResponse).Ends (TableAnswers table) events result)
    (hsplit : splitForm req.body = .ok (some (username, userpasswd))) :
    ∃ before rest values, events = before ++ rest ∧ QueryRun username before values ∧
      ((∃ row, values = some row ∧ loginSucceeds username userpasswd row = .ok true ∧
          FileRun (ascii "../root/index.html") resp rest result) ∨
        (∃ row, values = some row ∧ loginSucceeds username userpasswd row = .ok false ∧
          FileRun (ascii "../root/loginfail.html") resp rest result) ∨
        rest = [] ∧ ∀ row, values = some row →
          ∃ why, loginSucceeds username userpasswd row = .error why) := by
  rw [onRequest_login hpost hlogin, orAbort_ok hsplit] at h
  rcases ends_bind_iff.mp h with ⟨before, rest, row, rfl, hquery, h⟩ | ⟨rfl, hquery⟩
  · refine ⟨before, rest, some row, rfl, queryRun_of_ends hquery, ?_⟩
    rcases ends_orAbort.mp h with ⟨ok, hok, h⟩ | ⟨⟨why, herror⟩, rfl, -⟩
    · cases ok with
      | true => exact .inl ⟨row, rfl, hok, fileRun_of_ends h⟩
      | false => exact .inr (.inl ⟨row, rfl, hok, fileRun_of_ends h⟩)
    · refine .inr (.inr ⟨rfl, fun row' hrow => ⟨why, ?_⟩⟩)
      rw [← Option.some.inj hrow, herror]
  · exact ⟨events, [], none, (List.append_nil _).symm, queryRun_of_ends hquery,
      .inr (.inr ⟨rfl, nofun⟩)⟩

/-- The row that admits `username` with `userpasswd`. -/
def Admits (table : List UserRow) (username userpasswd : Bytes) : Prop :=
  ∃ row ∈ table, row.username = username ∧ cString row.password = userpasswd

theorem admits_of_answered (hpost : req.method = .kPost) (hlogin : req.path = ascii "/login")
    (h : (onRequest req resp : Handler Conn HttpResponse).Ends (TableAnswers table) events result)
    (hindex : AnsweredWith (ascii "../root/index.html") resp events result) :
    ∃ username userpasswd, splitForm req.body = .ok (some (username, userpasswd)) ∧
      validateString username = true ∧ validateString userpasswd = true ∧
      Admits table username userpasswd := by
  have hanswers := h.answers
  have hpage : ascii "../root/loginfail.html" ≠ ascii "../root/index.html" := by decide
  cases hsplit : splitForm req.body with
  | error why =>
    rw [onRequest_login hpost hlogin, hsplit] at h
    obtain ⟨-, rfl, -⟩ := (ends_orAbort.mp h).resolve_left nofun
    obtain ⟨before, rest, hnil, hfile⟩ := hindex
    obtain ⟨e, he, -⟩ := hfile.stat
    rw [(List.append_eq_nil_iff.mp hnil.symm).2] at he
    exact absurd he List.not_mem_nil
  | ok form =>
    cases form with
    | none =>
      rw [onRequest_login hpost hlogin, orAbort_ok hsplit] at h
      exact absurd (hindex.page_eq [] nofun (fileRun_of_ends h)) hpage
    | some form =>
      obtain ⟨username, userpasswd⟩ := form
      obtain ⟨before, rest, values, rfl, hquery, hends⟩ := login_ends hpost hlogin h hsplit
      rcases hends with ⟨row, rfl, hok, -⟩ | ⟨row, -, -, hfile⟩ | ⟨rfl, -⟩
      · obtain ⟨hname, hpasswd, hvalue, hvalue'⟩ := valid_of_loginSucceeds hok
        refine ⟨username, userpasswd, rfl, hname, hpasswd, ?_⟩
        rcases hquery.finds (fun e he => hanswers e (List.mem_append_left _ he)) hname with
          ⟨row', hmem, hsame, hrow⟩ | ⟨hnone | hnone, -⟩
        · rw [Option.some.inj hrow] at hvalue'
          exact ⟨row', hmem, hsame, Option.some.inj hvalue'⟩
        · rw [Option.some.inj hnone] at hvalue
          exact nomatch hvalue
        · exact nomatch hnone
      · exact absurd (hindex.page_eq before hquery.no_stat hfile) hpage
      · obtain ⟨before', rest', hsplit', hfile⟩ := hindex
        obtain ⟨e, he, hstat⟩ := hfile.stat
        rw [List.append_nil] at hsplit'
        refine absurd hstat (hquery.no_stat e ?_)
        rw [hsplit']
        exact List.mem_append_right before' he

/-- The form that the login page sends. -/
def loginBody (username userpasswd : Bytes) : Bytes :=
  ascii "username=" ++ username ++ ascii "&userpasswd=" ++ userpasswd

theorem splitForm_loginBody (hname : validateString username = true)
    (hpasswd : validateString userpasswd = true) :
    splitForm (loginBody username userpasswd) = .ok (some (username, userpasswd)) := by
  have hkeys : loginBody username userpasswd = ascii "username" ++ equalsSign :: username ++
      ampersand :: ascii "userpasswd" ++ equalsSign :: userpasswd := by
    unfold loginBody
    have h₁ : ascii "username=" = ascii "username" ++ [equalsSign] := by decide
    have h₂ : ascii "&userpasswd=" = ampersand :: ascii "userpasswd" ++ [equalsSign] := by decide
    rw [h₁, h₂]
    simp
  have hlen : (loginBody username userpasswd).length < 2 ^ 31 := by
    have hn := length_le_of_validate hname
    have hp := length_le_of_validate hpasswd
    have hkey : (ascii "username=").length = 9 := by decide
    have hkey' : (ascii "&userpasswd=").length = 12 := by decide
    simp only [loginBody, List.length_append, hkey, hkey']
    omega
  exact splitForm_of_inOrder hkeys hlen (by decide) (by decide)
    (not_mem_of_validate hname (by decide)) (by decide)

theorem answered_of_registered (hpost : req.method = .kPost) (hlogin : req.path = ascii "/login")
    (h : (onRequest req resp : Handler Conn HttpResponse).Ends (TableAnswers table) events result)
    (hname : validateString username = true) (hpasswd : validateString userpasswd = true)
    (hbody : req.body = loginBody username userpasswd)
    (hthere : ∃ row ∈ table, row.username = username)
    (honly : ∀ row ∈ table, row.username = username → row.password = userpasswd)
    (hasked : ∀ e ∈ events, ¬ Unavailable e) :
    AnsweredWith (ascii "../root/index.html") resp events result := by
  have hsplit : splitForm req.body = .ok (some (username, userpasswd)) := by
    rw [hbody, splitForm_loginBody hname hpasswd]
  have hanswers := h.answers
  obtain ⟨before, rest, values, rfl, hquery, hends⟩ := login_ends hpost hlogin h hsplit
  rcases hquery.finds (fun e he => hanswers e (List.mem_append_left _ he)) hname with
    ⟨row, hmem, hsame, rfl⟩ | ⟨-, hno | ⟨e, he, hfails⟩⟩
  · have hok : loginSucceeds username userpasswd
        [cString row.id, cString row.username, cString row.password] = .ok true := by
      rw [honly row hmem hsame, hsame, cString_of_validate hname, cString_of_validate hpasswd]
      exact loginSucceeds_row _ hname hpasswd
    rcases hends with ⟨-, -, -, hfile⟩ | ⟨row', hrow, hfail, -⟩ | ⟨-, herror⟩
    · exact ⟨before, rest, rfl, hfile⟩
    · rw [← Option.some.inj hrow, hok] at hfail
      exact absurd (Except.ok.inj hfail) Bool.noConfusion
    · obtain ⟨why, hwhy⟩ := herror _ rfl
      exact nomatch hok.symm.trans hwhy
  · obtain ⟨row, hmem, hsame⟩ := hthere
    exact absurd hsame (hno row hmem)
  · exact absurd hfails (hasked e (List.mem_append_left _ he))

/-- **Whom a login admits.** It answers with `index.html` only if both values are valid and the
table has a row of that username whose password, as a C string, is that password; and it does if
all rows of the username are of that password and the database could be asked. -/
theorem login_admits (hpost : req.method = .kPost) (hlogin : req.path = ascii "/login")
    (h : (onRequest req resp : Handler Conn HttpResponse).Ends (TableAnswers table) events result) :
    (AnsweredWith (ascii "../root/index.html") resp events result →
      ∃ username userpasswd, splitForm req.body = .ok (some (username, userpasswd)) ∧
        validateString username = true ∧ validateString userpasswd = true ∧
        Admits table username userpasswd) ∧
    ∀ username userpasswd, validateString username = true → validateString userpasswd = true →
      req.body = loginBody username userpasswd → (∃ row ∈ table, row.username = username) →
      (∀ row ∈ table, row.username = username → row.password = userpasswd) →
      (∀ e ∈ events, ¬ Unavailable e) →
      AnsweredWith (ascii "../root/index.html") resp events result :=
  ⟨admits_of_answered hpost hlogin h, fun _ _ hname hpasswd hbody hthere honly hasked =>
    answered_of_registered hpost hlogin h hname hpasswd hbody hthere honly hasked⟩

/-- A run for a row of the table. -/
theorem ends_of_row {row : UserRow} (sqlconn : Conn) (hpost : req.method = .kPost)
    (hlogin : req.path = ascii "/login") (hmem : row ∈ table)
    (hsplit : splitForm req.body = .ok (some (row.username, cString row.password)))
    (hname : validateString row.username = true)
    (hpasswd : validateString (cString row.password) = true)
    (hpage : (fileToString (ascii "../root/index.html") resp : Handler Conn HttpResponse).Ends
      (TableAnswers table) rest result) :
    (onRequest req resp).Ends (TableAnswers table)
      ([⟨.getConnection, some sqlconn⟩,
        ⟨.realQuery sqlconn (selectQuery row.username),
          QueryAnswer.row [some row.id, some row.username, some row.password]⟩,
        ⟨.releaseConnection sqlconn, ()⟩] ++ rest) result := by
  have hanswer : SelectAnswers table row.username
      (.row [some row.id, some row.username, some row.password]) :=
    ⟨le_rfl, fun _ => ⟨row, hmem, rfl, rfl⟩⟩
  have hok : loginSucceeds row.username (cString row.password)
      [cString row.id, cString row.username, cString row.password] = .ok true := by
    rw [cString_of_validate hname]
    exact loginSucceeds_row _ hname hpasswd
  rw [onRequest_login hpost hlogin, orAbort_ok hsplit]
  refine ends_bind_iff.mpr (.inl ⟨_, _,
    [cString row.id, cString row.username, cString row.password], rfl, ?_, ?_⟩)
  · refine ends_perform.mpr ⟨some sqlconn, _, rfl, trivial, ?_⟩
    refine ends_perform.mpr ⟨.row _, _, rfl, ?_, ?_⟩
    · intro username hquery
      rwa [← selectQuery_injective hquery]
    · exact ends_perform.mpr ⟨(), _, rfl, trivial, rfl, rfl⟩
  · rw [orAbort_ok hok]
    exact hpage

/-- The form of the login page, for the only row of the user. -/
theorem login_admits_example :
    AnsweredWith (ascii "../root/index.html") { closeConnection := false }
      ([⟨.getConnection, some 0⟩,
        ⟨.realQuery 0 (selectQuery (ascii "alice")),
          QueryAnswer.row [some (ascii "1"), some (ascii "alice"), some (ascii "secret")]⟩,
        ⟨.releaseConnection 0, ()⟩] ++
        [⟨.stat (ascii "../root/index.html"), (none : Option Nat)⟩] : List (HandlerEvent Nat))
      (some (notFound { closeConnection := false })) := by
  have hname : validateString (ascii "alice") = true := by decide
  have hpasswd : validateString (ascii "secret") = true := by decide
  have hmem : (⟨ascii "1", ascii "alice", ascii "secret"⟩ : UserRow) ∈
      [⟨ascii "1", ascii "alice", ascii "secret"⟩] := List.mem_cons_self
  have hstring : cString (ascii "secret") = ascii "secret" := cString_of_validate hpasswd
  have hsplit := splitForm_loginBody hname hpasswd
  have hends := @ends_of_row Nat _ _ _
    { method := .kPost, path := ascii "/login", body := loginBody (ascii "alice") (ascii "secret") }
    { closeConnection := false } _ 0 rfl rfl hmem (by rw [hstring]; exact hsplit) hname
    (by rw [hstring]; exact hpasswd) (ends_absent trivial)
  refine (login_admits rfl rfl hends).2 _ _ hname hpasswd rfl ⟨_, List.mem_cons_self, rfl⟩ ?_ ?_
  · intro row hrow _
    rw [List.mem_singleton.mp hrow]
  · have hrow : ∀ fields, ¬(QueryAnswer.row fields = .error ∨ QueryAnswer.row fields = .noResult) :=
      fun fields h => h.elim nofun nofun
    exact List.forall_iff_forall_mem.mp ⟨Option.some_ne_none 0, hrow _, id, id⟩

/-- **A login admits more than the rows of the table**: a password with a `NUL` in it by what stands
in front of it; and a body with a quote in it, where it is not looked at. -/
theorem login_admits_more_example :
    (¬ ∀ (table : List UserRow) (req : HttpRequest) (resp : HttpResponse)
      (events : List (HandlerEvent Nat)) (result : Option HttpResponse),
      req.method = .kPost → req.path = ascii "/login" → req.body.length < 2 ^ 31 →
      (onRequest req resp).Ends (TableAnswers table) events result →
      AnsweredWith (ascii "../root/index.html") resp events result →
      ∃ username userpasswd, splitForm req.body = .ok (some (username, userpasswd)) ∧
        ∃ row ∈ table, row.username = username ∧ row.password = userpasswd) ∧
    ¬ ∀ (table : List UserRow) (req : HttpRequest) (resp : HttpResponse)
      (events : List (HandlerEvent Nat)) (result : Option HttpResponse),
      req.method = .kPost → req.path = ascii "/login" → req.body.length < 2 ^ 31 →
      (onRequest req resp).Ends (TableAnswers table) events result →
      AnsweredWith (ascii "../root/index.html") resp events result → 39 ∉ req.body := by
  have hindex : ∀ before : List (HandlerEvent Nat),
      AnsweredWith (ascii "../root/index.html") { closeConnection := false }
        (before ++ [⟨.stat (ascii "../root/index.html"), (none : Option Nat)⟩])
        (some (notFound { closeConnection := false })) := fun before => ⟨before, _, rfl, .absent⟩
  constructor
  · intro h
    have hsplit : splitForm (ascii "u=alice&p=secret") =
        .ok (some (ascii "alice", cString (ascii "secret" ++ [0, 120]))) := by decide +kernel
    obtain ⟨username, userpasswd, hform, row, hrow, -, hpasswd⟩ :=
      h [⟨ascii "1", ascii "alice", ascii "secret" ++ [0, 120]⟩]
        { method := .kPost, path := ascii "/login", body := ascii "u=alice&p=secret" }
        { closeConnection := false } _ _ rfl rfl (by decide)
        (ends_of_row 0 rfl rfl List.mem_cons_self hsplit (by decide) (by decide)
          (ends_absent trivial)) (hindex _)
    have hform' := Option.some.inj (Except.ok.inj (hsplit.symm.trans hform))
    rw [List.mem_singleton.mp hrow, ← (Prod.mk.inj hform').2] at hpasswd
    exact absurd hpasswd (by decide)
  · intro h
    have hsplit : splitForm (ascii "u'=alice&p=secret") =
        .ok (some (ascii "alice", ascii "secret")) := by decide +kernel
    have hquote := h [⟨ascii "1", ascii "alice", ascii "secret"⟩]
      { method := .kPost, path := ascii "/login", body := ascii "u'=alice&p=secret" }
      { closeConnection := false } _ _ rfl rfl (by decide)
      (ends_of_row 0 rfl rfl List.mem_cons_self hsplit (by decide) (by decide)
          (ends_absent trivial)) (hindex _)
    exact hquote (by decide)

end

end SimpleHttpServer
