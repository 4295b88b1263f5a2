import SimpleHttpServer.App.HandlerRuns
import SimpleHttpServer.App.WebRoot

/-!
# Which requests are answered

A response is meaningful if it is a 404, or a 200 with the contents of a regular file, and has no
body that was built from a failed mapping. What can go wrong in between is up to the request, the
files and the database: `Answerable` lists it.

* `FileRun.meaningful_iff_mapped`: a failed mapping is never answered in a meaningful way;
* **`meaningful_iff`**: a run of `onRequest` ends in a meaningful response if and only if its inputs
  are `Answerable`;
* `unanswered_example`: a POST to a path without a route, and a directory.
-/

namespace SimpleHttpServer

open Lib Lib.Program

section

variable {Conn : Type}

/-- **A meaningful response**: a 404, or a 200 with the contents of a regular file; and where a
mapping has failed, a 404, whose body is built from nothing. -/
structure Meaningful (fs : FileSystem) (events : List (HandlerEvent Conn))
    (result : Option HttpResponse) : Prop where
  response : ∃ resp, result = some resp ∧
    (resp.statusCode = .k200Ok ∧
        (∃ filename contents, fs filename = .regular contents ∧ resp.body = contents) ∨
      resp.statusCode = .k404NotFound)
  unbuilt : (∃ e ∈ events, Unmapped e) → ∃ resp, result = some resp ∧
    resp.statusCode = .k404NotFound

/-- There is a result, and no field of its first row is `NULL`. -/
def QueryAnswer.Readable : QueryAnswer → Prop
  | .noResult => False
  | .row fields => fields.mapM id ≠ none
  | _ => True

/-- If the call is a SELECT, its answer can be read. -/
def RowRead : HandlerEvent Conn → Prop
  | ⟨.realQuery _ query, answer⟩ =>
    (∃ username, query = selectQuery username) → QueryAnswer.Readable answer
  | _ => True

/-- The row has the columns that a login looks at: a second one unless it is empty or a value is not
valid, and a third one if the second is the username. -/
def HasColumns (username userpasswd : Bytes) (queryRes : List Bytes) : Prop :=
  (validateString username && validateString userpasswd) = true → queryRes ≠ [] →
    1 < queryRes.length ∧ (queryRes[1]? = some username → 2 < queryRes.length)

/-- If the call is the SELECT of a login, its row has the columns. -/
def ColumnsRead (username userpasswd : Bytes) : HandlerEvent Conn → Prop
  | ⟨.realQuery _ query, QueryAnswer.row fields⟩ => query = selectQuery username →
    ∀ values, fields.mapM id = some values →
      HasColumns username userpasswd (values.map cString)
  | _ => True

/-- **What a request, the files and the database must be like**, for a response. -/
structure Answerable (req : HttpRequest) (events : List (HandlerEvent Conn)) : Prop where
  routed : req.method = .kPost → req.path = ascii "/login" ∨ req.path = ascii "/register"
  /-- The positions in the body; in one of less than `2 ^ 31` bytes they are as they must be. -/
  positions : req.method = .kPost → InBounds req.body
  rows : ∀ e ∈ events, RowRead e
  columns : req.method = .kPost → req.path = ascii "/login" →
    ∀ username userpasswd, splitForm req.body = .ok (some (username, userpasswd)) →
      ∀ e ∈ events, ColumnsRead username userpasswd e
  /-- The file, if there is one, can be opened and mapped: so it is no directory and not empty. -/
  mapped : ∀ e ∈ events, ¬ Unmapped e

variable {fs : FileSystem} {events before rest : List (HandlerEvent Conn)}
  {result : Option HttpResponse} {resp : HttpResponse} {filename : Bytes}

/-! ## Files -/

theorem FileRun.rows (h : FileRun filename resp events result) : ∀ e ∈ events, RowRead e := by
  refine List.forall_iff_forall_mem.mp ?_
  cases h with
  | absent => trivial
  | _ => exact ⟨trivial, trivial⟩

theorem FileRun.columns (h : FileRun filename resp events result) (username userpasswd : Bytes) :
    ∀ e ∈ events, ColumnsRead username userpasswd e := by
  refine List.forall_iff_forall_mem.mp ?_
  cases h with
  | absent => trivial
  | _ => exact ⟨trivial, trivial⟩

theorem not_meaningful_none : ¬ Meaningful fs events none := fun h => by
  obtain ⟨resp, hresp, -⟩ := h.response
  cases hresp

/-- Without a failed mapping the response is all that counts. -/
theorem meaningful_of_mapped (hmapped : ∀ e ∈ events, ¬ Unmapped e)
    (hresponse : ∃ resp, result = some resp ∧
      (resp.statusCode = .k200Ok ∧
          (∃ filename contents, fs filename = .regular contents ∧ resp.body = contents) ∨
        resp.statusCode = .k404NotFound)) : Meaningful fs events result :=
  ⟨hresponse, fun ⟨e, he, hun⟩ => absurd hun (hmapped e he)⟩

/-- **A run of `fileToString` is meaningful exactly if the mapping does not fail**: behind a failed
one there is a 200, or nothing. -/
theorem FileRun.meaningful_iff_mapped (h : FileRun filename resp rest result)
    (hfiles : ∀ e ∈ rest, FileAnswers fs e.1 e.2) (hbefore : ∀ e ∈ before, ¬ Unmapped e) :
    Meaningful fs (before ++ rest) result ↔ ∀ e ∈ before ++ rest, ¬ Unmapped e := by
  rw [List.forall_mem_append, and_iff_right hbefore]
  constructor
  · rintro hmeaningful e he hun
    obtain ⟨resp', hresult, hnotFound⟩ :=
      hmeaningful.unbuilt ⟨e, List.mem_append_right before he, hun⟩
    revert e
    refine List.forall_iff_forall_mem.mp ?_
    cases h with
    | absent => exact id
    | mapped => exact ⟨id, nofun⟩
    | unmappedEmpty =>
      -- a body is built, under a status that says so
      rw [← Option.some.inj hresult] at hnotFound
      exact nomatch hnotFound
    | unmapped => exact nomatch hresult
  · intro hrest
    refine meaningful_of_mapped (List.forall_mem_append.mpr ⟨hbefore, hrest⟩) ?_
    rw [← List.forall_iff_forall_mem] at hfiles hrest
    cases h with
    | absent => exact ⟨_, rfl, .inr rfl⟩
    | mapped size mapFile =>
      obtain ⟨hsize, hmap⟩ := hfiles
      obtain ⟨-, contents, hregular, rfl⟩ := hmap mapFile rfl
      have hlength : some size = (fs filename).size := hsize
      rw [hregular] at hlength
      refine ⟨_, rfl, .inl ⟨rfl, filename, contents, hregular, ?_⟩⟩
      rw [Option.some.inj hlength]
      exact List.take_length
    | unmappedEmpty => exact absurd rfl hrest.2
    | unmapped hsize => exact absurd rfl hrest.2

/-! ## The database -/

/-- **A run of `getQueryRes` returns exactly if its answer can be read.** -/
theorem QueryRun.rows_iff {username : Bytes} {values : Option (List Bytes)}
    (h : QueryRun username events values) : (∀ e ∈ events, RowRead e) ↔ values ≠ none := by
  rw [← List.forall_iff_forall_mem]
  cases h with
  | noConnection => exact iff_of_true trivial (Option.some_ne_none _)
  | error sqlconn =>
    exact iff_of_true ⟨trivial, fun _ => trivial, trivial⟩ (Option.some_ne_none _)
  | noResult sqlconn => exact iff_of_false (fun hrows => hrows.2 ⟨username, rfl⟩) (by simp)
  | noRow sqlconn =>
    exact iff_of_true ⟨trivial, fun _ => trivial, trivial⟩ (Option.some_ne_none _)
  | row sqlconn hvalues =>
    refine iff_of_true ⟨trivial, fun _ => ?_, trivial⟩ (Option.some_ne_none _)
    show List.mapM id _ ≠ none
    rw [hvalues]
    exact Option.some_ne_none _
  | nullField sqlconn hvalues =>
    exact iff_of_false (fun hrows => hrows.2 ⟨username, rfl⟩ hvalues) (by simp)

theorem Plain.rowRead {e : HandlerEvent Conn} (h : Plain e) : RowRead e := by
  obtain ⟨op, answer⟩ := e
  cases op with
  | realQuery sqlconn query => exact fun ⟨username, heq⟩ => absurd heq (h username)
  | _ => trivial

/-- **The login can look at a row exactly if it has the columns.** -/
theorem loginSucceeds_ok_iff (username userpasswd : Bytes) (queryRes : List Bytes) :
    (∃ ok, loginSucceeds username userpasswd queryRes = .ok ok) ↔
      HasColumns username userpasswd queryRes := by
  unfold loginSucceeds HasColumns
  rcases validateString username && validateString userpasswd with _ | _
  · simp
  · match queryRes with
    | [] => simp
    | [_] => simp
    | _ :: name :: columns =>
      by_cases hname : username = name
      · cases columns <;> simp [hname]
      · simp [hname, Ne.symm hname]

/-- What the answers say of the columns is what the row returned has. -/
theorem QueryRun.columns_iff {username : Bytes} {values : Option (List Bytes)}
    (h : QueryRun username events values) (userpasswd : Bytes) :
    (∀ e ∈ events, ColumnsRead username userpasswd e) ↔
      ∀ row, values = some row → HasColumns username userpasswd row := by
  have hnil : ∀ row, some [] = some row → HasColumns username userpasswd row := by
    rintro _ ⟨⟩ - hne
    exact absurd rfl hne
  rw [← List.forall_iff_forall_mem]
  cases h with
  | noConnection => exact iff_of_true trivial hnil
  | error sqlconn => exact iff_of_true ⟨trivial, trivial, trivial⟩ hnil
  | noResult sqlconn => exact iff_of_true ⟨trivial, trivial⟩ nofun
  | noRow sqlconn => exact iff_of_true ⟨trivial, trivial, trivial⟩ hnil
  | row sqlconn hvalues =>
    constructor
    · rintro ⟨-, hcolumns, -⟩ row hrow
      rw [← Option.some.inj hrow]
      exact hcolumns rfl _ hvalues
    · intro hrow
      refine ⟨trivial, fun _ values hvalues' => ?_, trivial⟩
      rw [← Option.some.inj (hvalues.symm.trans hvalues')]
      exact hrow _ rfl
  | nullField sqlconn hvalues =>
    exact iff_of_true ⟨trivial, fun _ _ hvalues' => nomatch hvalues.symm.trans hvalues'⟩ nofun

/-! ## The routes -/

variable {req : HttpRequest}

/-- A route that ends in a file, when nothing else can go wrong with it. -/
theorem meaningful_of_file (hbefore : ∀ e ∈ before, ¬ Unmapped e)
    (hfile : FileRun filename resp rest result) (hfiles : ∀ e ∈ rest, FileAnswers fs e.1 e.2)
    (hroute : (∀ e ∈ before ++ rest, ¬ Unmapped e) → Answerable req (before ++ rest)) :
    Meaningful fs (before ++ rest) result ↔ Answerable req (before ++ rest) :=
  (hfile.meaningful_iff_mapped hfiles hbefore).trans ⟨hroute, Answerable.mapped⟩

/-- A form that could not be split is answered by nothing. -/
theorem not_answerable_of_error (hpost : req.method = .kPost) {why : Abort}
    (hsplit : splitForm req.body = .error why) : ¬ Answerable req events := fun hanswerable => by
  obtain ⟨form, hform⟩ := (splitForm_ok_iff req.body).mpr (hanswerable.positions hpost)
  exact nomatch hsplit.symm.trans hform

theorem meaningful_login_iff (hpost : req.method = .kPost) (hlogin : req.path = ascii "/login")
    (h : (onRequest req resp : Handler Conn HttpResponse).Ends (FileAnswers fs) events result) :
    Meaningful fs events result ↔ Answerable req events := by
  have hanswers := h.answers
  rw [onRequest_login hpost hlogin] at h
  rcases ends_orAbort.mp h with ⟨form, hsplit, h⟩ | ⟨⟨why, hsplit⟩, rfl, rfl⟩
  · have hbounds : InBounds req.body := (splitForm_ok_iff req.body).mp ⟨form, hsplit⟩
    cases form with
    | none =>
      refine meaningful_of_file (List.forall_mem_nil _) (fileRun_of_ends h) hanswers fun hmapped =>
        ⟨fun _ => .inl hlogin, fun _ => hbounds, (fileRun_of_ends h).rows, ?_, hmapped⟩
      intro _ _ username userpasswd hsplit'
      exact nomatch hsplit.symm.trans hsplit'
    | some form =>
      obtain ⟨username, userpasswd⟩ := form
      have hform : ∀ u p, splitForm req.body = .ok (some (u, p)) → u = username ∧ p = userpasswd :=
        fun u p hsplit' => by simpa [eq_comm] using hsplit.symm.trans hsplit'
      rcases ends_bind_iff.mp h with ⟨before, rest, values, rfl, hquery, h⟩ | ⟨rfl, hquery⟩
      · have hrun := queryRun_of_ends hquery
        have hrows : ∀ e ∈ before, RowRead e := hrun.rows_iff.mpr (Option.some_ne_none values)
        rcases ends_orAbort.mp h with ⟨ok, hok, h⟩ | ⟨⟨why, herror⟩, rfl, rfl⟩
        · -- the page depends on the answer, but it is a file in either case
          obtain ⟨page, hfile⟩ : ∃ page, FileRun page resp rest result := by
            cases ok <;> exact ⟨_, fileRun_of_ends h⟩
          refine meaningful_of_file hrun.mapped hfile
            (fun e he => hanswers e (List.mem_append_right _ he)) fun hmapped =>
            ⟨fun _ => .inl hlogin, fun _ => hbounds, ?_, ?_, hmapped⟩
          · exact List.forall_mem_append.mpr ⟨hrows, hfile.rows⟩
          · intro _ _ u p hsplit'
            obtain ⟨rfl, rfl⟩ := hform u p hsplit'
            refine List.forall_mem_append.mpr ⟨(hrun.columns_iff p).mpr ?_, hfile.columns u p⟩
            intro row hrow
            rw [← Option.some.inj hrow]
            exact (loginSucceeds_ok_iff u p values).mp ⟨ok, hok⟩
        · refine iff_of_false not_meaningful_none fun hanswerable => ?_
          have hcolumns := hanswerable.columns hpost hlogin username userpasswd hsplit
          rw [List.append_nil, hrun.columns_iff userpasswd] at hcolumns
          obtain ⟨ok, hok⟩ := (loginSucceeds_ok_iff _ _ values).mpr (hcolumns values rfl)
          exact nomatch herror.symm.trans hok
      · refine iff_of_false not_meaningful_none fun hanswerable => ?_
        exact (queryRun_of_ends hquery).rows_iff.mp hanswerable.rows rfl
  · exact iff_of_false not_meaningful_none (not_answerable_of_error hpost hsplit)

theorem meaningful_register_iff (hpost : req.method = .kPost)
    (hregister : req.path = ascii "/register")
    (h : (onRequest req resp : Handler Conn HttpResponse).Ends (FileAnswers fs) events result) :
    Meaningful fs events result ↔ Answerable req events := by
  have hanswers := h.answers
  have hlogin : ¬ req.path = ascii "/login" := by
    rw [hregister]
    decide
  rw [onRequest_register hpost hregister] at h
  rcases ends_orAbort.mp h with ⟨form, hsplit, h⟩ | ⟨⟨why, hsplit⟩, rfl, rfl⟩
  · have hbounds : InBounds req.body := (splitForm_ok_iff req.body).mp ⟨form, hsplit⟩
    have hroute : ∀ {events : List (HandlerEvent Conn)}, (∀ e ∈ events, RowRead e) →
        (∀ e ∈ events, ¬ Unmapped e) → Answerable req events := fun hrows hmapped =>
      ⟨fun _ => .inr hregister, fun _ => hbounds, hrows, fun _ hl => absurd hl hlogin, hmapped⟩
    have hpage : ∀ page, (fileToString page resp : Handler Conn HttpResponse).Ends
        (FileAnswers fs) events result → (Meaningful fs events result ↔ Answerable req events) :=
      fun page h => meaningful_of_file (List.forall_mem_nil _) (fileRun_of_ends h) hanswers
        (hroute (fileRun_of_ends h).rows)
    cases form with
    | none => exact hpage _ h
    | some form =>
      obtain ⟨username, userpasswd⟩ := form
      by_cases hvalid : (validateString username && validateString userpasswd) = true
      · rw [registerReply, if_pos hvalid] at h
        rcases ends_bind_iff.mp h with ⟨before, rest, inserted, rfl, hinsert, h⟩ | ⟨rfl, hinsert⟩
        · obtain ⟨query, other, values, rfl, hrun, hplain, hsame⟩ := insertNewUser_ends hinsert
          obtain ⟨page, hfile⟩ : ∃ page, FileRun page resp rest result := by
            cases inserted <;> exact ⟨_, fileRun_of_ends h⟩
          have hvalues : values ≠ none := fun hnone =>
            Option.some_ne_none inserted (hsame.mpr hnone)
          have hrows : ∀ e ∈ query ++ other, RowRead e :=
            List.forall_mem_append.mpr
              ⟨hrun.rows_iff.mpr hvalues, fun e he => (hplain e he).rowRead⟩
          exact meaningful_of_file (insertNewUser_mapped hinsert) hfile
            (fun e he => hanswers e (List.mem_append_right _ he))
            (hroute (List.forall_mem_append.mpr ⟨hrows, hfile.rows⟩))
        · obtain ⟨query, other, values, rfl, hrun, -, hsame⟩ := insertNewUser_ends hinsert
          refine iff_of_false not_meaningful_none fun hanswerable => ?_
          exact hrun.rows_iff.mp (List.forall_mem_append.mp hanswerable.rows).1 (hsame.mp rfl)
      · rw [registerReply, if_neg hvalid] at h
        exact hpage _ h
  · exact iff_of_false not_meaningful_none (not_answerable_of_error hpost hsplit)

/-- **Every run of `onRequest` ends in a meaningful response if and only if it is answerable**: the
request has a route and a form that can be split, the database answers with rows that can be read,
and a file that is there can be mapped. -/
theorem meaningful_iff (closeConnection : Bool)
    (h : (onRequest req { closeConnection } : Handler Conn HttpResponse).Ends (FileAnswers fs)
      events result) : Meaningful fs events result ↔ Answerable req events := by
  by_cases hpost : req.method = .kPost
  · by_cases hlogin : req.path = ascii "/login"
    · exact meaningful_login_iff hpost hlogin h
    · by_cases hregister : req.path = ascii "/register"
      · exact meaningful_register_iff hpost hregister h
      · -- the response is returned as it came, with its status unset
        rw [onRequest_otherPost hpost hlogin hregister] at h
        obtain ⟨rfl, rfl⟩ := ends_pure.mp h
        refine iff_of_false (fun hmeaningful => ?_) fun hanswerable =>
          (hanswerable.routed hpost).elim hlogin hregister
        obtain ⟨resp, hresp, hstatus⟩ := hmeaningful.response
        rw [← Option.some.inj hresp] at hstatus
        rcases hstatus with ⟨hok, -⟩ | hnotFound
        · exact nomatch hok
        · exact nomatch hnotFound
  · have hroute : (∀ e ∈ events, RowRead e) → (∀ e ∈ events, ¬ Unmapped e) →
        Answerable req events := fun hrows hmapped =>
      ⟨fun hp => absurd hp hpost, fun hp => absurd hp hpost, hrows, fun hp => absurd hp hpost,
        hmapped⟩
    by_cases hget : req.method = .kGet
    · have hanswers := h.answers
      rw [onRequest_get _ _ hget] at h
      exact meaningful_of_file (List.forall_mem_nil _) (fileRun_of_ends h) hanswers
        (hroute (fileRun_of_ends h).rows)
    · rw [onRequest_notFound hget hpost] at h
      obtain ⟨rfl, rfl⟩ := ends_pure.mp h
      exact iff_of_true (meaningful_of_mapped nofun ⟨_, rfl, .inr rfl⟩) (hroute nofun nofun)

/-- A file that is there, mapped. -/
theorem meaningful_iff_example :
    Meaningful (fun _ => .regular (ascii "hi"))
      ([⟨.stat (ascii "../root/a.txt"), some 2⟩,
        ⟨.mmap (ascii "../root/a.txt") 2, some (ascii "hi")⟩] : List (HandlerEvent Nat))
      (some ((found { closeConnection := false }).setBody (ascii "hi"))) := by
  have hget : (onRequest { method := .kGet, path := ascii "/a.txt" } { closeConnection := false } :
      Handler Nat HttpResponse) =
      fileToString (ascii "../root/a.txt") { closeConnection := false } := onRequest_get _ _ rfl
  refine (meaningful_iff false (?_ : (onRequest { method := .kGet, path := ascii "/a.txt" } _ :
    Handler Nat HttpResponse).Ends _ _ _)).mpr ⟨nofun, nofun, ?_, nofun, ?_⟩
  · rw [hget]
    refine ends_mapped rfl fun bytes hbytes => ?_
    exact ⟨by decide, ascii "hi", rfl, (Option.some.inj hbytes).symm⟩
  · exact List.forall_iff_forall_mem.mp ⟨trivial, trivial⟩
  · exact List.forall_iff_forall_mem.mp ⟨id, nofun⟩

/-- **Not every request is answered**: a POST to a path without a route leaves the status unset, and
a GET of a directory reads a mapping that failed. -/
theorem unanswered_example :
    (¬ ∀ (fs : FileSystem) (req : HttpRequest) (events : List (HandlerEvent Nat))
      (result : Option HttpResponse), req.method = .kPost →
      (onRequest req { closeConnection := false }).Ends (FileAnswers fs) events result →
      Meaningful fs events result) ∧
    ¬ ∀ (fs : FileSystem) (req : HttpRequest) (events : List (HandlerEvent Nat))
      (result : Option HttpResponse), req.method = .kGet →
      (onRequest req { closeConnection := false }).Ends (FileAnswers fs) events result →
      Meaningful fs events result := by
  constructor
  · intro h
    have hm := h (fun _ => .absent) { method := .kPost, path := ascii "/other" } [] _ rfl
      (by rw [onRequest_otherPost rfl (by decide) (by decide)]; exact ⟨rfl, rfl⟩)
    obtain ⟨resp, hresp, hstatus⟩ := hm.response
    rw [← Option.some.inj hresp] at hstatus
    rcases hstatus with ⟨hok, -⟩ | hnotFound
    · exact nomatch hok
    · exact nomatch hnotFound
  · intro h
    have hm := h (fun _ => .directory 4096) { method := .kGet, path := ascii "/." }
      [⟨.stat (ascii "../root/."), some 4096⟩, ⟨.mmap (ascii "../root/.") 4096, none⟩] none rfl ?_
    · exact not_meaningful_none hm
    · rw [onRequest_get _ _ rfl]
      refine ends_perform.mpr ⟨some 4096, _, rfl, rfl, ?_⟩
      exact ends_perform.mpr ⟨none, [], rfl, nofun, ends_abort.mpr ⟨rfl, rfl⟩⟩

end

end SimpleHttpServer
