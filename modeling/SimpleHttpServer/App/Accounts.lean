import SimpleHttpServer.App.Login
import SimpleHttpServer.Lib.Simulation

/-!
# The accounts that the example server keeps

`onRequest` (`example/test.cpp`) over one `userdata` table and one directory of files, one request
after another. What the server is for is said by `accountStore`: an account is a name and a
password, kept under the key by which the table compares names; a registration adds one where there
is none, a login asks for one, and nothing else touches them. A name may stand for a directory, and
`open` and `mmap` may fail on any file: then the page of a reply cannot be sent, but the account has
been kept.

* `InsertRun` are all the runs of `insertNewUser`;
* `Backend.Step` is one call of a handler, with what it does to the table;
* `Backend.Page` is what a page is answered with, be the file there, mapped, or not;
* `Backend.refines`: a request is a step of `accountStore`, answered with the page of its reply;
* **`accounts_refined`**: so is every sequence of requests;
* **`registered_account_persists`**: behind a registration that succeeds, and whatever requests come
  in between, a login is admitted exactly with the name and the password registered.

One request is handled at a time, as on one loop thread; a request that is aborted takes the server
down, and the ones behind it are those of the server started again on the same table.
-/

namespace SimpleHttpServer

open Lib Lib.Program

section

variable {Conn : Type} {R : ∀ op : ExternalCall Conn, op.Answer → Prop}
  {events : List (HandlerEvent Conn)} {username userpasswd : Bytes}

/-! ## The runs of `insertNewUser` -/

/-- The runs of `insertNewUser(username, userpasswd)`. -/
inductive InsertRun (username userpasswd : Bytes) :
    List (HandlerEvent Conn) → Option Bool → Prop
  | aborted {check : List (HandlerEvent Conn)} (h : QueryRun username check none) :
      InsertRun username userpasswd check none
  | taken {check : List (HandlerEvent Conn)} {row : List Bytes}
      (h : QueryRun username check (some row)) (hrow : row.length > 0) :
      InsertRun username userpasswd check (some false)
  | noConnection {check : List (HandlerEvent Conn)} (h : QueryRun username check (some [])) :
      InsertRun username userpasswd (check ++ [⟨.getConnection, (none : Option Conn)⟩])
        (some false)
  | failed {check : List (HandlerEvent Conn)} (h : QueryRun username check (some []))
      (sqlconn : Conn) : InsertRun username userpasswd
      (check ++ [⟨.getConnection, some sqlconn⟩,
        ⟨.realQuery sqlconn (insertQuery username userpasswd), QueryAnswer.error⟩,
        ⟨.releaseConnection sqlconn, ()⟩]) (some false)
  | inserted {check : List (HandlerEvent Conn)} (h : QueryRun username check (some []))
      (sqlconn : Conn) {answer : QueryAnswer} (hok : answer ≠ .error) :
      InsertRun username userpasswd
      (check ++ [⟨.getConnection, some sqlconn⟩,
        ⟨.realQuery sqlconn (insertQuery username userpasswd), answer⟩,
        ⟨.releaseConnection sqlconn, ()⟩]) (some true)

theorem insertRun_of_ends {result : Option Bool}
    (h : (insertNewUser username userpasswd : Handler Conn Bool).Ends R events result) :
    InsertRun username userpasswd events result := by
  rcases ends_bind_iff.mp h with ⟨check, rest, preQuery, rfl, hquery, h⟩ | ⟨rfl, hquery⟩
  · have hcheck := queryRun_of_ends hquery
    by_cases hfound : preQuery.length > 0
    · rw [if_pos hfound] at h
      obtain ⟨rfl, rfl⟩ := ends_pure.mp h
      rw [List.append_nil]
      exact .taken hcheck hfound
    · rw [if_neg hfound] at h
      obtain rfl : preQuery = [] := List.length_eq_zero_iff.mp (by omega)
      obtain ⟨sqlconn, rest, rfl, -, h⟩ := ends_perform.mp h
      cases sqlconn with
      | none =>
        obtain ⟨rfl, rfl⟩ := h
        exact .noConnection hcheck
      | some sqlconn =>
        obtain ⟨answer, rest, rfl, -, h⟩ := ends_perform.mp h
        cases answer with
        | error =>
          obtain ⟨rfl, rfl⟩ := ends_release h
          exact .failed hcheck sqlconn
        | noResult =>
          obtain ⟨rfl, rfl⟩ := ends_release h
          exact .inserted hcheck sqlconn nofun
        | noRow =>
          obtain ⟨rfl, rfl⟩ := ends_release h
          exact .inserted hcheck sqlconn nofun
        | row fields =>
          obtain ⟨rfl, rfl⟩ := ends_release h
          exact .inserted hcheck sqlconn nofun
  · exact .aborted (queryRun_of_ends hquery)

end

/-! ## The database and the files -/

/-- What the example server finds around it. -/
structure Backend where
  /-- Two names are the same to a SELECT if they have the same key. -/
  sortKey : Bytes → Bytes
  files : FileSystem
  /-- `GetConnection` may give `nullptr`, and a query may fail. -/
  fails : Prop

namespace Backend

variable {Conn : Type} (b : Backend)

/-- The comparison of the table. -/
def collate (x y : Bytes) : Bool := decide (b.sortKey x = b.sortKey y)

/-- The first row that a SELECT for the key finds. -/
def find (table : List UserRow) (key : Bytes) : Option UserRow :=
  table.find? fun row => decide (b.sortKey row.username = key)

/-- A statement for valid values does what it was written for; one that begins with SELECT changes
no table, whatever follows. -/
structure Queried (table : List UserRow) (query : Bytes) (answer : QueryAnswer)
    (table' : List UserRow) : Prop where
  select : ∀ username, query = selectQuery username → table' = table ∧
    (validateString username = true → answer = Registration.select b.collate table username ∨
      b.fails ∧ (answer = .error ∨ answer = .noResult))
  insert : ∀ username userpasswd, query = insertQuery username userpasswd →
    validateString username = true → validateString userpasswd = true →
      answer = .error ∧ b.fails ∧ table' = table ∨
        answer ≠ .error ∧ ∃ id, table' = table ++ [⟨id, username, userpasswd⟩]

/-- A call of a handler. Files are read only. -/
def Step (table : List UserRow) :
    (op : ExternalCall Conn) → op.Answer → List UserRow → Prop
  | .getConnection, (sqlconn : Option Conn), table' =>
    table' = table ∧ (sqlconn = none → b.fails)
  | .realQuery _ query, (answer : QueryAnswer), table' => b.Queried table query answer table'
  | .releaseConnection _, _, table' => table' = table
  | .stat filename, (size : Option Nat), table' =>
    table' = table ∧ FileAnswers b.files (.stat filename : ExternalCall Conn) size
  | .mmap filename size, (mapFile : Option Bytes), table' =>
    table' = table ∧ FileAnswers b.files (.mmap filename size : ExternalCall Conn) mapFile
  | .abort _, _, _ => False

/-- **What a page is answered with**: by a 404 if there is no file; with its contents if the calls
have mapped it; and if not, with an empty body where it has no size, and not at all otherwise. -/
inductive Page (filename : Bytes) (resp : HttpResponse) (events : List (HandlerEvent Conn)) :
    Option HttpResponse → Prop
  | absent (h : b.files filename = .absent) : Page filename resp events (some (notFound resp))
  | regular {contents : Bytes} (h : b.files filename = .regular contents)
      (hmapped : ∀ e ∈ events, ¬ Unmapped e) :
      Page filename resp events (some ((found resp).setBody contents))
  | unmappedEmpty (h : (b.files filename).size = some 0) (hun : ∃ e ∈ events, Unmapped e) :
      Page filename resp events (some ((found resp).setBody []))
  | unmapped {size : Nat} (h : (b.files filename).size = some size) (hsize : size ≠ 0)
      (hun : ∃ e ∈ events, Unmapped e) : Page filename resp events none

variable {b} {table table' : List UserRow} {events : List (HandlerEvent Conn)}
  {username userpasswd filename : Bytes} {resp : HttpResponse}

/-- Calls that read no file do not change what a page is answered with. -/
theorem Page.behind {before rest : List (HandlerEvent Conn)} {result : Option HttpResponse}
    (h : b.Page filename resp rest result) (hbefore : ∀ e ∈ before, ¬ Unmapped e) :
    b.Page filename resp (before ++ rest) result := by
  have hun : (∃ e ∈ rest, Unmapped e) → ∃ e ∈ before ++ rest, Unmapped e :=
    fun ⟨e, he, hun⟩ => ⟨e, List.mem_append_right before he, hun⟩
  cases h with
  | absent h => exact .absent h
  | regular h hmapped => exact .regular h (List.forall_mem_append.mpr ⟨hbefore, hmapped⟩)
  | unmappedEmpty h hrest => exact .unmappedEmpty h (hun hrest)
  | unmapped h hsize hrest => exact .unmapped h hsize (hun hrest)

/-- A regular file that can be mapped is what the page is answered with. -/
theorem Page.eq_contents {result : Option HttpResponse} {contents : Bytes}
    (h : b.Page filename resp events result) (hfile : b.files filename = .regular contents)
    (hmapped : ∀ e ∈ events, ¬ Unmapped e) : result = some ((found resp).setBody contents) := by
  have hnone : ¬ ∃ e ∈ events, Unmapped e := fun ⟨e, he, hun⟩ => hmapped e he hun
  cases h with
  | absent h => exact nomatch hfile.symm.trans h
  | regular h hmapped => rw [File.regular.inj (hfile.symm.trans h)]
  | unmappedEmpty h hun => exact absurd hun hnone
  | unmapped h hsize hun => exact absurd hun hnone

/-- **A run of `fileToString` answers with the page**, and leaves the table alone. -/
theorem fileRun_serves {result : Option HttpResponse} (h : FileRun filename resp events result)
    (he : Evolves b.Step table events table') :
    table' = table ∧ b.Page filename resp events result := by
  cases h with
  | absent =>
    obtain ⟨_, ⟨rfl, hsize⟩, rfl⟩ := he
    exact ⟨rfl, .absent (File.size_eq_none hsize.symm)⟩
  | mapped size mapFile =>
    obtain ⟨_, ⟨rfl, hsize⟩, _, ⟨rfl, hmap⟩, rfl⟩ := he
    obtain ⟨-, contents, hregular, rfl⟩ := hmap mapFile rfl
    have hlength : some size = (b.files filename).size := hsize
    rw [hregular] at hlength
    rw [Option.some.inj hlength, List.take_length]
    exact ⟨rfl, .regular hregular (List.forall_iff_forall_mem.mp ⟨id, nofun⟩)⟩
  | unmappedEmpty =>
    obtain ⟨_, ⟨rfl, hsize⟩, _, ⟨rfl, -⟩, rfl⟩ := he
    exact ⟨rfl, .unmappedEmpty hsize.symm ⟨_, List.mem_cons_of_mem _ List.mem_cons_self, rfl⟩⟩
  | unmapped hne =>
    obtain ⟨_, ⟨rfl, hsize⟩, _, ⟨rfl, -⟩, rfl⟩ := he
    exact ⟨rfl, .unmapped hsize.symm hne ⟨_, List.mem_cons_of_mem _ List.mem_cons_self, rfl⟩⟩

/-- `getQueryRes` leaves the table alone. -/
theorem queryRun_keeps {values : Option (List Bytes)} (h : QueryRun username events values)
    (he : Evolves b.Step table events table') : table' = table := by
  cases h with
  | noConnection =>
    obtain ⟨_, ⟨rfl, -⟩, rfl⟩ := he
    rfl
  | error sqlconn =>
    obtain ⟨_, ⟨rfl, -⟩, _, hq, _, rfl, rfl⟩ := he
    exact (hq.select username rfl).1
  | noResult sqlconn =>
    obtain ⟨_, ⟨rfl, -⟩, _, hq, rfl⟩ := he
    exact (hq.select username rfl).1
  | noRow sqlconn =>
    obtain ⟨_, ⟨rfl, -⟩, _, hq, _, rfl, rfl⟩ := he
    exact (hq.select username rfl).1
  | row sqlconn hvalues =>
    obtain ⟨_, ⟨rfl, -⟩, _, hq, _, rfl, rfl⟩ := he
    exact (hq.select username rfl).1
  | nullField sqlconn hvalues =>
    obtain ⟨_, ⟨rfl, -⟩, _, hq, rfl⟩ := he
    exact (hq.select username rfl).1

theorem select_eq (b : Backend) (table : List UserRow) (username : Bytes) :
    Registration.select b.collate table username =
      match b.find table (b.sortKey username) with
      | some row => .row [some row.id, some row.username, some row.password]
      | none => .noRow := rfl

/-- What `getQueryRes` finds for a valid username. -/
theorem queryRun_serves {values : Option (List Bytes)} (h : QueryRun username events values)
    (hname : validateString username = true) (he : Evolves b.Step table events table') :
    (∃ row, b.find table (b.sortKey username) = some row ∧
        values = some [cString row.id, cString row.username, cString row.password]) ∨
      (b.find table (b.sortKey username) = none ∧ values = some []) ∨
      b.fails ∧ (values = some [] ∨ values = none) := by
  have hselect : ∀ {sqlconn : Conn} {answer : QueryAnswer} {t₁ : List UserRow},
      b.Step table (.realQuery sqlconn (selectQuery username)) answer t₁ →
        answer = Registration.select b.collate table username ∨
          b.fails ∧ (answer = .error ∨ answer = .noResult) :=
    fun hq => (hq.select username rfl).2 hname
  cases h with
  | noConnection =>
    obtain ⟨_, ⟨rfl, hfails⟩, rfl⟩ := he
    exact .inr (.inr ⟨hfails rfl, .inl rfl⟩)
  | error sqlconn =>
    obtain ⟨_, ⟨rfl, -⟩, _, hq, -⟩ := he
    rcases hselect hq with heq | ⟨hfails, -⟩
    · rw [select_eq] at heq
      split at heq <;> exact nomatch heq
    · exact .inr (.inr ⟨hfails, .inl rfl⟩)
  | noResult sqlconn =>
    obtain ⟨_, ⟨rfl, -⟩, _, hq, -⟩ := he
    rcases hselect hq with heq | ⟨hfails, -⟩
    · rw [select_eq] at heq
      split at heq <;> exact nomatch heq
    · exact .inr (.inr ⟨hfails, .inr rfl⟩)
  | noRow sqlconn =>
    obtain ⟨_, ⟨rfl, -⟩, _, hq, -⟩ := he
    rcases hselect hq with heq | ⟨-, hno | hno⟩
    · rw [select_eq] at heq
      split at heq
      · exact nomatch heq
      · rename_i hnone
        exact .inr (.inl ⟨hnone, rfl⟩)
    · exact nomatch hno
    · exact nomatch hno
  | row sqlconn hvalues =>
    obtain ⟨_, ⟨rfl, -⟩, _, hq, -⟩ := he
    rcases hselect hq with heq | ⟨-, hno | hno⟩
    · rw [select_eq] at heq
      split at heq
      · rename_i row hrow
        obtain rfl := QueryAnswer.row.inj heq
        refine .inl ⟨row, hrow, ?_⟩
        rw [← Option.some.inj hvalues]
        rfl
      · exact nomatch heq
    · exact nomatch hno
    · exact nomatch hno
  | nullField sqlconn hvalues =>
    obtain ⟨_, ⟨rfl, -⟩, _, hq, -⟩ := he
    rcases hselect hq with heq | ⟨-, hno | hno⟩
    · rw [select_eq] at heq
      split at heq
      · obtain rfl := QueryAnswer.row.inj heq
        exact nomatch hvalues
      · exact nomatch heq
    · exact nomatch hno
    · exact nomatch hno

/-- `insertNewUser` adds a row, or leaves the table alone. -/
theorem insertRun_serves {result : Option Bool} (h : InsertRun username userpasswd events result)
    (hname : validateString username = true) (hpasswd : validateString userpasswd = true)
    (he : Evolves b.Step table events table') :
    (result = some true ∧ ∃ id, table' = table ++ [⟨id, username, userpasswd⟩]) ∧
        (b.find table (b.sortKey username) = none ∨ b.fails) ∨
      result = some false ∧ table' = table ∧
        ((∃ row, b.find table (b.sortKey username) = some row) ∨ b.fails) ∨
      result = none ∧ table' = table ∧ b.fails := by
  cases h with
  | aborted hcheck =>
    refine .inr (.inr ⟨rfl, queryRun_keeps hcheck he, ?_⟩)
    rcases queryRun_serves hcheck hname he with ⟨_, -, hno⟩ | ⟨-, hno⟩ | ⟨hfails, -⟩
    · exact nomatch hno
    · exact nomatch hno
    · exact hfails
  | taken hcheck hrow =>
    refine .inr (.inl ⟨rfl, queryRun_keeps hcheck he, ?_⟩)
    rcases queryRun_serves hcheck hname he with ⟨row, hfound, -⟩ | ⟨-, hno⟩ | ⟨hfails, -⟩
    · exact .inl ⟨row, hfound⟩
    · rw [Option.some.inj hno] at hrow
      exact absurd hrow (Nat.lt_irrefl 0)
    · exact .inr hfails
  | noConnection hcheck =>
    obtain ⟨_, hbefore, _, ⟨rfl, hfails⟩, rfl⟩ := evolves_append.mp he
    exact .inr (.inl ⟨rfl, queryRun_keeps hcheck hbefore, .inr (hfails rfl)⟩)
  | failed hcheck sqlconn =>
    obtain ⟨_, hbefore, _, ⟨rfl, -⟩, _, hq, _, rfl, rfl⟩ := evolves_append.mp he
    obtain rfl := queryRun_keeps hcheck hbefore
    rcases hq.insert username userpasswd rfl hname hpasswd with ⟨-, hfails, rfl⟩ | ⟨hne, -⟩
    · exact .inr (.inl ⟨rfl, rfl, .inr hfails⟩)
    · exact absurd rfl hne
  | inserted hcheck sqlconn hok =>
    obtain ⟨_, hbefore, _, ⟨rfl, -⟩, _, hq, _, rfl, rfl⟩ := evolves_append.mp he
    obtain rfl := queryRun_keeps hcheck hbefore
    rcases hq.insert username userpasswd rfl hname hpasswd with ⟨herror, -⟩ | ⟨-, hrow⟩
    · exact absurd herror hok
    · refine .inl ⟨⟨rfl, hrow⟩, ?_⟩
      rcases queryRun_serves hcheck hname hbefore with ⟨_, -, hno⟩ | ⟨hnone, -⟩ | ⟨hfails, -⟩
      · exact nomatch hno
      · exact .inl hnone
      · exact .inr hfails

end Backend

/-! ## The abstract store -/

/-- The account kept under each key, by name and password. -/
abbrev Accounts := Bytes → Option (Bytes × Bytes)

/-- An account is added where there is none. -/
def Accounts.add (accounts : Accounts) (key : Bytes) (account : Bytes × Bytes) : Accounts :=
  fun k => if k = key then some ((accounts k).getD account) else accounts k

/-- What a request asks of the accounts. -/
inductive Ask where
  | register (username userpasswd : Bytes)
  | login (username userpasswd : Bytes)
  | nothing
  deriving DecidableEq

/-- What a request is told. -/
inductive Reply where
  | registered
  | refused
  | admitted
  | rejected
  /-- The request ends before it has a page. -/
  | aborted
  | nothing
  deriving DecidableEq

/-- Both values have the form that a registration asks for. -/
def ValidForm (username userpasswd : Bytes) : Prop :=
  validateString username = true ∧ validateString userpasswd = true

/-- **What the server is for.** A registration is `registered` if it is valid and the key is free,
and `refused` otherwise; a login is `admitted` if it is valid and the account is there, and
`rejected` otherwise. While the database fails a registration may be refused or taken for the first
one, a login may be rejected, and both may be aborted; a login with an invalid name always may. -/
def accountStore (b : Backend) : Machine Accounts (Ask × Reply) where
  init _ := True
  guard accounts
    | (.register username userpasswd, .registered) => ValidForm username userpasswd ∧
      (accounts (b.sortKey username) = none ∨ b.fails)
    | (.register username userpasswd, .refused) => ValidForm username userpasswd →
      accounts (b.sortKey username) ≠ none ∨ b.fails
    | (.register _ _, .aborted) => b.fails
    | (.login username userpasswd, .admitted) => ValidForm username userpasswd ∧
      accounts (b.sortKey username) = some (username, userpasswd)
    | (.login username userpasswd, .rejected) => ValidForm username userpasswd →
      accounts (b.sortKey username) ≠ some (username, userpasswd) ∨ b.fails
    | (.login username _, .aborted) => validateString username = true → b.fails
    | (.nothing, .nothing) => True
    | _ => False
  next accounts
    | (.register username userpasswd, .registered) =>
      accounts.add (b.sortKey username) (username, userpasswd)
    | _ => accounts

/-- Only a registration changes the accounts. -/
theorem accountStore_next (b : Backend) (accounts : Accounts) (step : Ask × Reply) :
    (∃ username userpasswd, step = (.register username userpasswd, .registered) ∧
      (accountStore b).next accounts step =
        accounts.add (b.sortKey username) (username, userpasswd)) ∨
      (accountStore b).next accounts step = accounts := by
  obtain ⟨ask, reply⟩ := step
  cases ask with
  | register username userpasswd =>
    cases reply with
    | registered => exact .inl ⟨username, userpasswd, rfl, rfl⟩
    | _ => exact .inr rfl
  | _ => exact .inr rfl

/-- An account that is there stays as it is. -/
theorem accountStore_keeps {b : Backend} {key : Bytes} {account : Bytes × Bytes} :
    ∀ {steps : List (Ask × Reply)} {accounts : Accounts}, accounts key = some account →
      (accountStore b).after accounts steps key = some account
  | [], _, h => h
  | step :: steps, accounts, h => by
    have hnext : (accountStore b).next accounts step key = some account := by
      rcases accountStore_next b accounts step with ⟨username, userpasswd, -, hadd⟩ | hsame
      · rw [hadd, Accounts.add, h]
        split <;> rfl
      · rw [hsame]
        exact h
    show (accountStore b).after ((accountStore b).next accounts step) steps key = _
    exact accountStore_keeps hnext

/-! ## Requests -/

/-- What a request asks, by its form. -/
def asks (req : HttpRequest) : Ask :=
  if req.method = .kPost then
    match splitForm req.body with
    | .ok (some (username, userpasswd)) =>
      if req.path = ascii "/login" then .login username userpasswd
      else if req.path = ascii "/register" then .register username userpasswd
      else .nothing
    | _ => .nothing
  else .nothing

/-- A request that `onRequest` has handled, and the table it has left. -/
structure Handled (Conn : Type) where
  req : HttpRequest
  resp : HttpResponse
  events : List (HandlerEvent Conn)
  result : Option HttpResponse
  table : List UserRow

/-- Every row has been registered, so it is valid. -/
def ValidTable (table : List UserRow) : Prop :=
  ∀ row ∈ table, ValidForm row.username row.password

namespace Backend

variable {Conn : Type}

/-- The requests of all connections, one after another. -/
def requests (b : Backend) : Machine (List UserRow) (Handled Conn) where
  init := ValidTable
  guard table a := (onRequest a.req a.resp : Handler Conn HttpResponse).Ends (fun _ _ => True)
      a.events a.result ∧ Evolves b.Step table a.events a.table
  next _ a := a.table

/-- The request is answered with the page. -/
def AnsweredBy (b : Backend) (filename : Bytes) (a : Handled Conn) : Prop :=
  b.Page filename a.resp a.events a.result

/-- The response that tells the reply. -/
def Tells (b : Backend) (a : Handled Conn) : Reply → Prop
  | .registered => b.AnsweredBy (ascii "../root/registersucceed.html") a
  | .refused => b.AnsweredBy (ascii "../root/registerfail.html") a
  | .admitted => b.AnsweredBy (ascii "../root/index.html") a
  | .rejected => b.AnsweredBy (ascii "../root/loginfail.html") a
  | .aborted => a.result = none
  | .nothing => True

/-- The accounts of a table. -/
def accounts (b : Backend) (table : List UserRow) : Accounts := fun key =>
  (b.find table key).map fun row => (row.username, row.password)

theorem accounts_append (b : Backend) (table : List UserRow) (row : UserRow) :
    b.accounts (table ++ [row]) =
      (b.accounts table).add (b.sortKey row.username) (row.username, row.password) := by
  funext key
  simp only [accounts, Accounts.add, find, List.find?_append]
  cases hfind : table.find? fun row => decide (b.sortKey row.username = key) with
  | some row' => simp
  | none =>
    by_cases hkey : b.sortKey row.username = key
    · simp [hkey]
    · simp [hkey, Ne.symm hkey]

/-! ## The refinement -/

variable {b : Backend} {table : List UserRow} {username userpasswd : Bytes}

theorem accounts_eq_none {key : Bytes} (h : b.find table key = none) :
    b.accounts table key = none := by
  unfold accounts
  rw [h]
  rfl

theorem accounts_ne_none {key : Bytes} {row : UserRow} (h : b.find table key = some row) :
    b.accounts table key ≠ none := by
  unfold accounts
  rw [h]
  nofun

/-- The page comes last. -/
theorem answeredBy_of_page {a : Handled Conn} {filename : Bytes}
    {before rest : List (HandlerEvent Conn)} (h : b.Page filename a.resp rest a.result)
    (heq : a.events = before ++ rest) (hbefore : ∀ e ∈ before, ¬ Unmapped e) :
    b.AnsweredBy filename a := by
  rw [AnsweredBy, heq]
  exact h.behind hbefore

/-- What `onRequest` does with a registration. -/
theorem register_serves {a : Handled Conn} (hpost : a.req.method = .kPost)
    (hpath : a.req.path = ascii "/register")
    (hsplit : splitForm a.req.body = .ok (some (username, userpasswd)))
    (hg : (requests b).guard table a) (hvalid : ValidTable table) :
    ∃ reply, b.Tells a reply ∧
      (accountStore b).guard (b.accounts table) (.register username userpasswd, reply) ∧
      ValidTable a.table ∧ b.accounts a.table =
        (accountStore b).next (b.accounts table) (.register username userpasswd, reply) := by
  obtain ⟨hends, hev⟩ := hg
  rw [onRequest_register hpost hpath, orAbort_ok hsplit] at hends
  unfold registerReply at hends
  simp only at hends
  by_cases hform : (validateString username && validateString userpasswd) = true
  · rw [if_pos hform] at hends
    obtain ⟨hname, hpasswd⟩ := Bool.and_eq_true_iff.mp hform
    rcases ends_bind_iff.mp hends with ⟨before, rest, ok, heq, hinsert, hpage⟩ | ⟨hnone, hinsert⟩
    · rw [heq] at hev
      obtain ⟨t₁, hbefore, hrest⟩ := evolves_append.mp hev
      rcases insertRun_serves (insertRun_of_ends hinsert) hname hpasswd hbefore with
        ⟨⟨hok, id, rfl⟩, hfree⟩ | ⟨hok, rfl, htaken⟩ | ⟨hno, -⟩
      · obtain rfl := Option.some.inj hok
        rw [if_pos rfl] at hpage
        obtain ⟨htable, hserved⟩ := fileRun_serves (fileRun_of_ends hpage) hrest
        have hresult := answeredBy_of_page hserved heq (insertNewUser_mapped hinsert)
        refine ⟨.registered, hresult, ⟨⟨hname, hpasswd⟩, hfree.imp_left accounts_eq_none⟩, ?_, ?_⟩
        · rw [htable]
          intro row hrow
          rcases List.mem_append.mp hrow with hrow | hrow
          · exact hvalid row hrow
          · rw [List.mem_singleton.mp hrow]
            exact ⟨hname, hpasswd⟩
        · rw [htable, accounts_append]
          rfl
      · obtain rfl := Option.some.inj hok
        rw [if_neg Bool.false_ne_true] at hpage
        obtain ⟨htable, hserved⟩ := fileRun_serves (fileRun_of_ends hpage) hrest
        have hresult := answeredBy_of_page hserved heq (insertNewUser_mapped hinsert)
        refine ⟨.refused, hresult, fun _ => ?_, htable ▸ hvalid, by rw [htable]; rfl⟩
        exact htaken.imp_left fun ⟨row, hrow⟩ => accounts_ne_none hrow
      · exact nomatch hno
    · rcases insertRun_serves (insertRun_of_ends hinsert) hname hpasswd hev with
        ⟨⟨hno, -⟩, -⟩ | ⟨hno, -⟩ | ⟨-, htable, hfails⟩
      · exact nomatch hno
      · exact nomatch hno
      · exact ⟨.aborted, hnone, hfails, htable ▸ hvalid, by rw [htable]; rfl⟩
  · rw [if_neg hform] at hends
    obtain ⟨htable, hresult⟩ := fileRun_serves (fileRun_of_ends hends) hev
    refine ⟨.refused, hresult, fun ⟨hname, hpasswd⟩ => ?_, htable ▸ hvalid, by rw [htable]; rfl⟩
    exact absurd (by rw [hname, hpasswd]; rfl) hform

/-- The condition of a login, for the row of the username. -/
theorem loginSucceeds_of_row {row : UserRow} (userpasswd : Bytes)
    (hrow : ValidForm row.username row.password) (hname : validateString username = true) :
    loginSucceeds username userpasswd
        [cString row.id, cString row.username, cString row.password] =
      .ok (decide (validateString userpasswd = true ∧
        (row.username, row.password) = (username, userpasswd))) := by
  rw [cString_of_validate hrow.1, cString_of_validate hrow.2]
  unfold loginSucceeds
  by_cases hpasswd : validateString userpasswd = true
  · by_cases heq : username = row.username
    · subst heq
      simp [hname, hpasswd, eq_comm]
    · simp [hname, hpasswd, heq, Ne.symm heq]
  · simp [hname, hpasswd]

/-- An invalid name is not admitted, whatever the database answers. -/
theorem loginSucceeds_of_invalid (h : ¬ validateString username = true) (values : List Bytes) :
    loginSucceeds username userpasswd values = .ok false := by
  unfold loginSucceeds
  rw [Bool.not_eq_true] at h
  simp [h]

/-- Without a row nobody is admitted. -/
theorem loginSucceeds_nil (username userpasswd : Bytes) :
    loginSucceeds username userpasswd [] = .ok false := by
  simp [loginSucceeds]

/-- What a login does with the answer of `getQueryRes`. -/
theorem login_page {a : Handled Conn} {values : List Bytes} {ok : Bool}
    {rest : List (HandlerEvent Conn)} {t t' : List UserRow}
    (hok : loginSucceeds username userpasswd values = .ok ok)
    (hends : (orAbort (loginSucceeds username userpasswd values) >>= fun ok =>
      if ok then fileToString (ascii "../root/index.html") a.resp
      else fileToString (ascii "../root/loginfail.html") a.resp :
        Handler Conn HttpResponse).Ends (fun _ _ => True) rest a.result)
    (hev : Evolves b.Step t rest t') {before : List (HandlerEvent Conn)}
    (heq : a.events = before ++ rest) (hbefore : ∀ e ∈ before, ¬ Unmapped e) :
    t' = t ∧ b.Tells a (if ok then .admitted else .rejected) := by
  rw [orAbort_ok hok] at hends
  cases ok with
  | true =>
    exact (fileRun_serves (fileRun_of_ends hends) hev).imp_right fun hserved =>
      answeredBy_of_page hserved heq hbefore
  | false =>
    exact (fileRun_serves (fileRun_of_ends hends) hev).imp_right fun hserved =>
      answeredBy_of_page hserved heq hbefore

/-- What `onRequest` does with a login. -/
theorem login_serves {a : Handled Conn} (hpost : a.req.method = .kPost)
    (hpath : a.req.path = ascii "/login")
    (hsplit : splitForm a.req.body = .ok (some (username, userpasswd)))
    (hg : (requests b).guard table a) (hvalid : ValidTable table) :
    ∃ reply, b.Tells a reply ∧
      (accountStore b).guard (b.accounts table) (.login username userpasswd, reply) ∧
      a.table = table := by
  obtain ⟨hends, hev⟩ := hg
  rw [onRequest_login hpost hpath, orAbort_ok hsplit] at hends
  rcases ends_bind_iff.mp hends with ⟨before, rest, values, heq, hquery, hpage⟩ | ⟨hnone, hquery⟩
  · rw [heq] at hev
    obtain ⟨t₁, hbefore, hrest⟩ := evolves_append.mp hev
    have hrun := queryRun_of_ends hquery
    obtain rfl := queryRun_keeps hrun hbefore
    by_cases hname : validateString username = true
    · rcases queryRun_serves hrun hname hbefore with
        ⟨row, hrow, hvalues⟩ | ⟨hfree, hvalues⟩ | ⟨hfails, hvalues | hno⟩
      · have hmem : row ∈ t₁ := List.mem_of_find?_eq_some hrow
        have hok := loginSucceeds_of_row userpasswd (hvalid row hmem) hname
        rw [← Option.some.inj hvalues] at hok
        obtain ⟨htable, htells⟩ := login_page hok hpage hrest heq hrun.mapped
        have haccount : b.accounts t₁ (b.sortKey username) = some (row.username, row.password) := by
          unfold accounts
          rw [hrow]
          rfl
        refine ⟨_, htells, ?_, htable⟩
        by_cases hsame : validateString userpasswd = true ∧
            (row.username, row.password) = (username, userpasswd)
        · rw [if_pos (decide_eq_true hsame)]
          exact ⟨⟨hname, hsame.1⟩, by rw [haccount, hsame.2]⟩
        · rw [decide_eq_false hsame]
          intro hform
          refine .inl fun hadmitted => hsame ⟨hform.2, ?_⟩
          rw [haccount] at hadmitted
          exact Option.some.inj hadmitted
      · have hok : loginSucceeds username userpasswd values = .ok false := by
          rw [Option.some.inj hvalues]
          exact loginSucceeds_nil username userpasswd
        obtain ⟨htable, htells⟩ := login_page hok hpage hrest heq hrun.mapped
        refine ⟨.rejected, htells, fun _ => .inl ?_, htable⟩
        rw [accounts_eq_none hfree]
        nofun
      · have hok : loginSucceeds username userpasswd values = .ok false := by
          rw [Option.some.inj hvalues]
          exact loginSucceeds_nil username userpasswd
        obtain ⟨htable, htells⟩ := login_page hok hpage hrest heq hrun.mapped
        exact ⟨.rejected, htells, fun _ => .inr hfails, htable⟩
      · exact nomatch hno
    · obtain ⟨htable, htells⟩ := login_page (loginSucceeds_of_invalid hname values) hpage hrest heq hrun.mapped
      exact ⟨.rejected, htells, fun hform => absurd hform.1 hname, htable⟩
  · have hrun := queryRun_of_ends hquery
    refine ⟨.aborted, hnone, fun hname => ?_, queryRun_keeps hrun hev⟩
    rcases queryRun_serves hrun hname hev with ⟨_, -, hno⟩ | ⟨-, hno⟩ | ⟨hfails, -⟩
    · exact nomatch hno
    · exact nomatch hno
    · exact hfails

/-- A form that cannot be split, or that lacks a field, leaves the table alone. -/
theorem form_keeps {a : Handled Conn} {reply : Option (Bytes × Bytes) → Handler Conn HttpResponse}
    {filename : Bytes} (hreply : reply none = fileToString filename a.resp)
    (hsplit : ∀ form, splitForm a.req.body ≠ .ok (some form))
    (hends : (orAbort (splitForm a.req.body) >>= reply).Ends (fun _ _ => True) a.events a.result)
    (hev : Evolves b.Step table a.events a.table) : a.table = table := by
  rcases ends_orAbort.mp hends with ⟨form, hform, hends⟩ | ⟨-, hnil, -⟩
  · cases form with
    | none =>
      rw [hreply] at hends
      exact (fileRun_serves (fileRun_of_ends hends) hev).1
    | some form => exact absurd hform (hsplit form)
  · rw [hnil] at hev
    exact hev

/-- Any other request leaves the table alone. -/
theorem other_keeps {a : Handled Conn} (hasks : asks a.req = .nothing)
    (hg : (requests b).guard table a) : a.table = table := by
  obtain ⟨hends, hev⟩ := hg
  by_cases hget : a.req.method = .kGet
  · obtain ⟨filename, hfile⟩ : ∃ filename, (onRequest a.req a.resp : Handler Conn HttpResponse) =
        fileToString filename a.resp := by
      unfold onRequest
      rw [if_pos hget]
      simp only
      split
      · exact ⟨_, rfl⟩
      · split <;> exact ⟨_, rfl⟩
    rw [hfile] at hends
    exact (fileRun_serves (fileRun_of_ends hends) hev).1
  by_cases hpost : a.req.method = .kPost
  · by_cases hlogin : a.req.path = ascii "/login"
    · have hsplit : ∀ form, splitForm a.req.body ≠ .ok (some form) := by
        rintro ⟨username, userpasswd⟩ hform
        rw [asks, if_pos hpost, hform] at hasks
        simp only [if_pos hlogin] at hasks
        cases hasks
      rw [onRequest_login hpost hlogin] at hends
      exact form_keeps rfl hsplit hends hev
    by_cases hregister : a.req.path = ascii "/register"
    · have hsplit : ∀ form, splitForm a.req.body ≠ .ok (some form) := by
        rintro ⟨username, userpasswd⟩ hform
        rw [asks, if_pos hpost, hform] at hasks
        simp only [if_neg hlogin, if_pos hregister] at hasks
        cases hasks
      rw [onRequest_register hpost hregister] at hends
      exact form_keeps rfl hsplit hends hev
    rw [onRequest_otherPost hpost hlogin hregister] at hends
    obtain ⟨hnil, -⟩ := ends_pure.mp hends
    rw [hnil] at hev
    exact hev
  · rw [onRequest_notFound hget hpost] at hends
    obtain ⟨hnil, -⟩ := ends_pure.mp hends
    rw [hnil] at hev
    exact hev

/-- What a request asks is by its method, its path and its form. -/
theorem asks_cases (req : HttpRequest) :
    (∃ username userpasswd, asks req = .register username userpasswd ∧ req.method = .kPost ∧
      req.path = ascii "/register" ∧ splitForm req.body = .ok (some (username, userpasswd))) ∨
    (∃ username userpasswd, asks req = .login username userpasswd ∧ req.method = .kPost ∧
      req.path = ascii "/login" ∧ splitForm req.body = .ok (some (username, userpasswd))) ∨
    asks req = .nothing := by
  unfold asks
  split
  · rename_i hpost
    split
    · rename_i username userpasswd hform
      split
      · rename_i hlogin
        exact .inr (.inl ⟨username, userpasswd, rfl, hpost, hlogin, hform⟩)
      · split
        · rename_i hregister
          exact .inl ⟨username, userpasswd, rfl, hpost, hregister, hform⟩
        · exact .inr (.inr rfl)
    · exact .inr (.inr rfl)
  · exact .inr (.inr rfl)

theorem asks_register {req : HttpRequest} (hpost : req.method = .kPost)
    (hpath : req.path = ascii "/register")
    (hsplit : splitForm req.body = .ok (some (username, userpasswd))) :
    asks req = .register username userpasswd := by
  have hlogin : ¬ ascii "/register" = ascii "/login" := by decide
  simp only [asks, hpost, hsplit, hpath, if_true, if_neg hlogin]

theorem asks_login {req : HttpRequest} (hpost : req.method = .kPost)
    (hpath : req.path = ascii "/login")
    (hsplit : splitForm req.body = .ok (some (username, userpasswd))) :
    asks req = .login username userpasswd := by
  simp only [asks, hpost, hsplit, hpath, if_true]

/-- **A request is a step of the account store**, answered with the page of the reply. -/
theorem request_serves {a : Handled Conn} (hg : (requests b).guard table a)
    (hvalid : ValidTable table) :
    ∃ reply, b.Tells a reply ∧
      (accountStore b).guard (b.accounts table) (asks a.req, reply) ∧ ValidTable a.table ∧
      b.accounts a.table = (accountStore b).next (b.accounts table) (asks a.req, reply) := by
  rcases asks_cases a.req with ⟨username, userpasswd, hasks, hpost, hpath, hform⟩ |
    ⟨username, userpasswd, hasks, hpost, hpath, hform⟩ | hasks
  · rw [hasks]
    exact register_serves hpost hpath hform hg hvalid
  · obtain ⟨reply, htells, hguard, htable⟩ := login_serves hpost hpath hform hg hvalid
    rw [hasks, htable]
    exact ⟨reply, htells, hguard, hvalid, rfl⟩
  · have htable := other_keeps hasks hg
    rw [hasks, htable]
    exact ⟨.nothing, trivial, trivial, hvalid, rfl⟩

/-- The requests refine the account store. -/
def refines (b : Backend) : Machine.Simulation (requests b : Machine _ (Handled Conn))
    (accountStore b) where
  rel table accounts := ValidTable table ∧ accounts = b.accounts table
  shows a steps := ∃ reply, steps = [(asks a.req, reply)] ∧ b.Tells a reply
  init table := fun h => ⟨b.accounts table, trivial, h, rfl⟩
  step table accounts a := by
    rintro ⟨hvalid, rfl⟩ hg
    obtain ⟨reply, htells, hguard, hvalid', haccounts⟩ := request_serves hg hvalid
    exact ⟨_, ⟨reply, rfl, htells⟩, ⟨hguard, trivial⟩, hvalid', haccounts.symm⟩

/-- A step with the reply that the response tells. -/
def Answers (b : Backend) (a : Handled Conn) (step : Ask × Reply) : Prop :=
  step.1 = asks a.req ∧ b.Tells a step.2

theorem answers_of_shows {as : List (Handled Conn)} {bss : List (List (Ask × Reply))}
    (h : List.Forall₂ (refines b).shows as bss) : List.Forall₂ b.Answers as bss.flatten := by
  induction h with
  | nil => exact .nil
  | cons hshows _ ih =>
    obtain ⟨reply, rfl, htells⟩ := hshows
    exact .cons ⟨rfl, htells⟩ ih

/-- **The server keeps accounts.** Any requests on any valid table, one after another: the pages
that they are answered with tell the replies of a run of the account store, and the table ends with
the accounts of that run. -/
theorem accounts_refined (b : Backend) {table : List UserRow} (hvalid : ValidTable table)
    {as : List (Handled Conn)} (hl : (requests b).Legal table as) :
    ∃ steps : List (Ask × Reply), List.Forall₂ b.Answers as steps ∧
      (accountStore b).Legal (b.accounts table) steps ∧
      ValidTable ((requests b).after table as) ∧
      b.accounts ((requests b).after table as) =
        (accountStore b).after (b.accounts table) steps := by
  obtain ⟨bss, hshows, hlegal, hvalid', haccounts⟩ := (refines b).run ⟨hvalid, rfl⟩ hl
  exact ⟨bss.flatten, answers_of_shows hshows, hlegal, hvalid', haccounts.symm⟩

/-- A registration of a free name, while the database does not fail. -/
theorem registers_of_free (hok : ¬ b.fails) (hvalid : ValidTable table) {a : Handled Conn}
    (hg : (requests b).guard table a) (hasks : asks a.req = .register username userpasswd)
    (hform : ValidForm username userpasswd)
    (hfree : b.accounts table (b.sortKey username) = none) :
    b.AnsweredBy (ascii "../root/registersucceed.html") a ∧ ValidTable a.table ∧
      b.accounts a.table (b.sortKey username) = some (username, userpasswd) := by
  obtain ⟨reply, htells, hguard, hvalid', haccounts⟩ := request_serves hg hvalid
  rw [hasks] at hguard haccounts
  cases reply with
  | registered =>
    refine ⟨htells, hvalid', ?_⟩
    rw [haccounts]
    show (b.accounts table).add (b.sortKey username) (username, userpasswd) _ = _
    rw [Accounts.add, if_pos rfl, hfree]
    rfl
  | refused =>
    rcases hguard hform with htaken | hfails
    · exact absurd hfree htaken
    · exact absurd hfails hok
  | aborted => exact absurd hguard hok
  | admitted => exact hguard.elim
  | rejected => exact hguard.elim
  | nothing => exact hguard.elim

/-- A login for a name whose account is there, while the database does not fail. -/
theorem login_of_account (hok : ¬ b.fails) (hvalid : ValidTable table) {a : Handled Conn}
    (hg : (requests b).guard table a) {name passwd : Bytes}
    (hasks : asks a.req = .login name passwd) (hname : validateString name = true) {account : Bytes × Bytes}
    (hform : ValidForm account.1 account.2)
    (haccount : b.accounts table (b.sortKey name) = some account) :
    b.AnsweredBy (if (name, passwd) = account then ascii "../root/index.html"
      else ascii "../root/loginfail.html") a := by
  obtain ⟨reply, htells, hguard, -⟩ := request_serves hg hvalid
  rw [hasks] at hguard
  cases reply with
  | admitted =>
    have hsame : (name, passwd) = account := by
      have h := hguard.2
      rw [haccount] at h
      exact (Option.some.inj h).symm
    rw [if_pos hsame]
    exact htells
  | rejected =>
    have hne : (name, passwd) ≠ account := by
      rintro rfl
      rcases hguard hform with habsent | hfails
      · exact habsent haccount
      · exact hok hfails
    rw [if_neg hne]
    exact htells
  | aborted => exact absurd (hguard hname) hok
  | registered => exact hguard.elim
  | refused => exact hguard.elim
  | nothing => exact hguard.elim

/-- **A registered account persists.** A free name is registered, any requests follow, and then
somebody logs in with a name of that key. While the database does not fail, and for pages that are
there and can be mapped, the registration is answered with the one that says so, and the login with
the index exactly if the name and the password are those registered. -/
theorem registered_account_persists (hok : ¬ b.fails) (hvalid : ValidTable table)
    {succeed index loginfail : Bytes}
    (hsucceed : b.files (ascii "../root/registersucceed.html") = .regular succeed)
    (hindex : b.files (ascii "../root/index.html") = .regular index)
    (hloginfail : b.files (ascii "../root/loginfail.html") = .regular loginfail)
    {first last : Handled Conn} {between : List (Handled Conn)}
    (hl : (requests b).Legal table (first :: between ++ [last]))
    (hasks : asks first.req = .register username userpasswd)
    (hform : ValidForm username userpasswd)
    (hfree : b.accounts table (b.sortKey username) = none) {name passwd : Bytes}
    (hlast : asks last.req = .login name passwd) (hname : validateString name = true)
    (hkey : b.sortKey name = b.sortKey username)
    (hmapped : ∀ e ∈ first.events, ¬ Unmapped e) (hmapped' : ∀ e ∈ last.events, ¬ Unmapped e) :
    first.result = some ((found first.resp).setBody succeed) ∧
      last.result = some ((found last.resp).setBody
        (if (name, passwd) = (username, userpasswd) then index else loginfail)) := by
  obtain ⟨hfirst, hrest⟩ := hl
  obtain ⟨hbetween, hg, -⟩ := Machine.legal_append.mp hrest
  obtain ⟨hresult, hvalid₁, haccount⟩ := registers_of_free hok hvalid hfirst hasks hform hfree
  obtain ⟨steps, -, -, hvalid₂, haccounts⟩ := (refines b).run ⟨hvalid₁, rfl⟩ hbetween
  have hkept : (accountStore b).after (b.accounts first.table) steps.flatten _ = _ :=
    accountStore_keeps haccount
  rw [haccounts, ← hkey] at hkept
  have hlogin := login_of_account hok hvalid₂ hg hlast hname hform hkept
  refine ⟨hresult.eq_contents hsucceed hmapped, hlogin.eq_contents ?_ hmapped'⟩
  split
  · exact hindex
  · exact hloginfail

/-! ## A registration and a login -/

/-- Valid values can be read off their statement. -/
theorem insertQuery_inj {u p u' p' : Bytes} (hu : validateString u = true)
    (hu' : validateString u' = true) (h : insertQuery u p = insertQuery u' p') :
    u = u' ∧ p = p' := by
  have hsplit : ∀ {u : Bytes} (p : Bytes), validateString u = true → Search.breakAt 39
      (u ++ (ascii "','" ++ (p ++ ascii "')"))) = (u, ascii "','" ++ (p ++ ascii "')")) :=
    fun p hu => Search.breakAt_append_cons (not_mem_of_validate hu (by decide)) _
  unfold insertQuery at h
  rw [List.append_assoc, List.append_assoc, List.append_assoc, List.append_assoc,
    List.append_assoc, List.append_assoc] at h
  have hbreak := congrArg (Search.breakAt 39) (List.append_cancel_left h)
  rw [hsplit p hu, hsplit p' hu'] at hbreak
  obtain ⟨hname, htail⟩ := Prod.mk.inj hbreak
  exact ⟨hname, List.append_cancel_right (List.append_cancel_left htail)⟩

/-- The pages of the example server. -/
def pages : List Bytes :=
  [ascii "../root/login.html", ascii "../root/index.html", ascii "../root/loginfail.html",
    ascii "../root/loginfailuser404.html", ascii "../root/registersucceed.html",
    ascii "../root/registerfail.html"]

/-- Names as they are, every page with its own name in it, and a database that does not fail. -/
def pagesRoot : Backend where
  sortKey := id
  files filename :=
    if pages.any fun page => decide (page = filename) then .regular filename else .absent
  fails := False

/-- The row of `alice`. -/
def aliceRow : UserRow := ⟨ascii "1", ascii "alice", ascii "secret"⟩

/-- A POST of the form of `alice`. -/
def aliceRequest (path : Bytes) : HttpRequest where
  method := .kPost
  path := path
  body := loginBody (ascii "alice") (ascii "secret")

/-- The calls that read a page of `pagesRoot`. -/
def pageEvents (filename : Bytes) : List (HandlerEvent Nat) :=
  [⟨.stat filename, some filename.length⟩, ⟨.mmap filename filename.length, some filename⟩]

/-- What the handler asks for when `alice` registers. -/
def aliceRegisters : Handled Nat where
  req := aliceRequest (ascii "/register")
  resp := { closeConnection := false }
  events := [⟨.getConnection, some 0⟩,
      ⟨.realQuery 0 (selectQuery (ascii "alice")), QueryAnswer.noRow⟩,
      ⟨.releaseConnection 0, ()⟩] ++ ([⟨.getConnection, some 0⟩,
      ⟨.realQuery 0 (insertQuery (ascii "alice") (ascii "secret")), QueryAnswer.noRow⟩,
      ⟨.releaseConnection 0, ()⟩] ++ pageEvents (ascii "../root/registersucceed.html"))
  result := some ((found { closeConnection := false }).setBody
    (ascii "../root/registersucceed.html"))
  table := [aliceRow]

/-- What it asks for when she logs in. -/
def aliceLogin (req : HttpRequest) (resp : HttpResponse) : Handled Nat where
  req := req
  resp := resp
  events := [⟨.getConnection, some 0⟩, ⟨.realQuery 0 (selectQuery (ascii "alice")),
      QueryAnswer.row [some (ascii "1"), some (ascii "alice"), some (ascii "secret")]⟩,
      ⟨.releaseConnection 0, ()⟩] ++ pageEvents (ascii "../root/index.html")
  result := some ((found resp).setBody (ascii "../root/index.html"))
  table := [aliceRow]

/-- She logs in with the form of the page. -/
def aliceLogsIn : Handled Nat :=
  aliceLogin (aliceRequest (ascii "/login")) { closeConnection := false }

theorem valid_alice : validateString (ascii "alice") = true := by decide

theorem valid_secret : validateString (ascii "secret") = true := by decide

/-- A SELECT for `alice`. -/
theorem queried_select {table : List UserRow} {answer : QueryAnswer}
    (h : answer = Registration.select pagesRoot.collate table (ascii "alice")) :
    pagesRoot.Queried table (selectQuery (ascii "alice")) answer table := by
  refine ⟨fun username hquery => ⟨rfl, fun _ => .inl ?_⟩, fun username userpasswd hquery => ?_⟩
  · rw [h, selectQuery_injective hquery]
  · exact absurd hquery (selectQuery_ne_insertQuery _ _ _)

theorem pagesRoot_files {filename : Bytes} (h : filename ∈ pages) :
    pagesRoot.files filename = .regular filename :=
  if_pos (List.any_eq_true.mpr ⟨filename, h, decide_eq_true rfl⟩)

/-- A page is read, and the table stays as it is. -/
theorem evolves_page {table : List UserRow} {filename : Bytes} (h : filename ∈ pages)
    (hne : 0 < filename.length) :
    Evolves pagesRoot.Step table (pageEvents filename) table := by
  refine ⟨table, ⟨rfl, ?_⟩, table, ⟨rfl, fun bytes hbytes => ⟨hne, filename, ?_, ?_⟩⟩, rfl⟩
  · show some filename.length = (pagesRoot.files filename).size
    rw [pagesRoot_files h]
    rfl
  · exact pagesRoot_files h
  · rw [List.take_length]
    exact (Option.some.inj hbytes).symm

theorem pageEvents_mapped (filename : Bytes) : ∀ e ∈ pageEvents filename, ¬ Unmapped e :=
  List.forall_iff_forall_mem.mp ⟨id, nofun⟩

theorem splitForm_aliceRequest (path : Bytes) :
    splitForm (aliceRequest path).body = .ok (some (ascii "alice", ascii "secret")) :=
  splitForm_loginBody valid_alice valid_secret

theorem aliceRegisters_guard : (requests pagesRoot).guard [] aliceRegisters := by
  constructor
  · show (onRequest (aliceRequest (ascii "/register")) _).Ends _ _ _
    rw [onRequest_register rfl rfl, orAbort_ok (splitForm_aliceRequest _), registerReply,
      if_pos (by decide)]
    refine ends_bind_iff.mpr (.inl ⟨_, _, true, (List.append_assoc _ _ _).symm, ?_, ?_⟩)
    · refine ends_bind_iff.mpr (.inl ⟨_, _, [], rfl, ?_, ?_⟩)
      · refine ends_perform.mpr ⟨some 0, _, rfl, trivial, ?_⟩
        refine ends_perform.mpr ⟨.noRow, _, rfl, trivial, ?_⟩
        exact ends_perform.mpr ⟨(), _, rfl, trivial, rfl, rfl⟩
      · have hnil : ¬ ([] : List Bytes).length > 0 := Nat.lt_irrefl 0
        rw [if_neg hnil]
        refine ends_perform.mpr ⟨some 0, _, rfl, trivial, ?_⟩
        refine ends_perform.mpr ⟨.noRow, _, rfl, trivial, ?_⟩
        exact ends_perform.mpr ⟨(), _, rfl, trivial, rfl, rfl⟩
    · exact ends_mapped trivial trivial
  · refine ⟨[], ⟨rfl, nofun⟩, [], queried_select rfl, [], rfl, [], ⟨rfl, nofun⟩, [aliceRow],
      ⟨fun username hquery => ?_, fun username userpasswd hquery hname _ => ?_⟩,
      [aliceRow], rfl, evolves_page (by decide) (by decide)⟩
    · exact absurd hquery.symm (selectQuery_ne_insertQuery _ _ _)
    · obtain ⟨rfl, rfl⟩ := insertQuery_inj valid_alice hname hquery
      exact .inr ⟨nofun, ascii "1", rfl⟩

/-- A login of `alice`, in any request. -/
theorem aliceLogin_guard {req : HttpRequest} {resp : HttpResponse} (hpost : req.method = .kPost)
    (hlogin : req.path = ascii "/login")
    (hbody : req.body = loginBody (ascii "alice") (ascii "secret")) :
    (requests pagesRoot).guard [aliceRow] (aliceLogin req resp) := by
  have hstring : cString aliceRow.password = ascii "secret" := cString_of_validate valid_secret
  have hsplit : splitForm req.body =
      .ok (some (aliceRow.username, cString aliceRow.password)) := by
    rw [hbody, hstring]
    exact splitForm_loginBody valid_alice valid_secret
  have hpasswd : validateString (cString aliceRow.password) = true := by
    rw [hstring]
    exact valid_secret
  have hmem : aliceRow ∈ [aliceRow] := List.mem_cons_self
  constructor
  · exact (ends_of_row 0 hpost hlogin hmem hsplit valid_alice hpasswd
      (ends_mapped trivial trivial)).mono fun _ _ _ => trivial
  · exact ⟨[aliceRow], ⟨rfl, nofun⟩, [aliceRow], queried_select rfl, [aliceRow], rfl,
      evolves_page (by decide) (by decide)⟩

theorem aliceLogsIn_guard : (requests pagesRoot).guard [aliceRow] aliceLogsIn :=
  aliceLogin_guard rfl rfl rfl

theorem alice_legal : (requests pagesRoot).Legal [] ([aliceRegisters] ++ [aliceLogsIn]) :=
  ⟨aliceRegisters_guard, aliceLogsIn_guard, trivial⟩

theorem validTable_nil : ValidTable [] := fun _ hrow => absurd hrow List.not_mem_nil

/-- `alice` registers and logs in, as a run of the store. -/
theorem accounts_refined_example :
    (requests pagesRoot).Legal [] ([aliceRegisters] ++ [aliceLogsIn]) ∧
    ∃ steps : List (Ask × Reply),
      List.Forall₂ pagesRoot.Answers ([aliceRegisters] ++ [aliceLogsIn]) steps ∧
      (accountStore pagesRoot).Legal (pagesRoot.accounts []) steps := by
  obtain ⟨steps, hanswers, hlegal, -⟩ := accounts_refined pagesRoot validTable_nil alice_legal
  exact ⟨alice_legal, steps, hanswers, hlegal⟩

/-- She is told that she is registered, and sees the index. -/
theorem registered_account_persists_example :
    (requests pagesRoot).Legal [] ([aliceRegisters] ++ [aliceLogsIn]) ∧
    aliceRegisters.result = some ((found aliceRegisters.resp).setBody
      (ascii "../root/registersucceed.html")) ∧
    aliceLogsIn.result = some ((found aliceLogsIn.resp).setBody (ascii "../root/index.html")) := by
  have hquery : ∀ (sqlconn : Nat) (query : Bytes) (answer : QueryAnswer),
      ∀ e ∈ ([⟨.getConnection, some sqlconn⟩, ⟨.realQuery sqlconn query, answer⟩,
        ⟨.releaseConnection sqlconn, ()⟩] : List (HandlerEvent Nat)), ¬ Unmapped e :=
    fun _ _ _ => List.forall_iff_forall_mem.mp ⟨id, id, id⟩
  have hmapped : ∀ e ∈ aliceRegisters.events, ¬ Unmapped e :=
    List.forall_mem_append.mpr ⟨hquery _ _ _,
      List.forall_mem_append.mpr ⟨hquery _ _ _, pageEvents_mapped _⟩⟩
  have hmapped' : ∀ e ∈ aliceLogsIn.events, ¬ Unmapped e :=
    List.forall_mem_append.mpr ⟨hquery _ _ _, pageEvents_mapped _⟩
  have h := registered_account_persists id validTable_nil (pagesRoot_files (by decide))
    (pagesRoot_files (by decide)) (pagesRoot_files (by decide)) alice_legal
    (asks_register rfl rfl (splitForm_aliceRequest _)) ⟨valid_alice, valid_secret⟩ rfl
    (asks_login rfl rfl (splitForm_aliceRequest _)) valid_alice rfl hmapped hmapped'
  rw [if_pos rfl] at h
  exact ⟨alice_legal, h⟩

end Backend

end SimpleHttpServer
