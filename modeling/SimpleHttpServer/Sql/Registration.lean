import SimpleHttpServer.Lib.Machine
import SimpleHttpServer.Sql.SqlOperation

/-!
# Registering a username once

Any number of calls `K` of `insertNewUser` over one `userdata` table, each of them at some point of
its code. Every call that leaves the program is a step; a query is atomic, and does to the table
what it was written for; `GetConnection` may give `nullptr` and a query may fail at any time. No
connection is used by two calls at a time (`PoolClients.pool_sound`), so a query's answer goes to
the call that made it. `collate` is the table's comparison, which a SELECT uses.

The check and the INSERT are two queries, and the check takes "could not ask" for "no such user".
The `records` note what became of each call's check.

* `Stage.code`: the code that is left at each stage of the call.
* **`registered_once_iff`**: a run keeps usernames unique exactly when no INSERT goes through for a
  call whose check could not be asked while the username was there, or that another call has
  overtaken since.
* `registered_twice_example`: two calls, both checks before both inserts.
-/

namespace SimpleHttpServer

open Lib

/-! ## The code, call by call -/

/-- Where a call of `insertNewUser` is. -/
inductive Stage (Conn : Type) where
  /-- `getQueryRes`: `GetConnection` is next. -/
  | asking
  /-- The SELECT is next. -/
  | selecting (sqlconn : Conn)
  /-- `getQueryRes` is to release the connection, and to return `res`. -/
  | answered (sqlconn : Conn) (res : List Bytes)
  /-- No user was found; `GetConnection` is next. -/
  | connecting
  /-- The INSERT is next. -/
  | inserting (sqlconn : Conn)
  /-- The connection is to be released, and `ok` to be returned. -/
  | closing (sqlconn : Conn) (ok : Bool)
  | returning (ok : Bool)

namespace Stage

variable {Conn : Type}

/-- What is left when the INSERT has been answered. -/
def closingCode (sqlconn : Conn) (ok : Bool) : Handler Conn Bool :=
  .call (.releaseConnection sqlconn) fun _ => .done ok

/-- What is left when the second connection has been obtained. -/
def insertingCode (username userpasswd : Bytes) (sqlconn : Conn) : Handler Conn Bool :=
  .call (.realQuery sqlconn (insertQuery username userpasswd)) fun
    | .error => closingCode sqlconn false
    | _ => closingCode sqlconn true

/-- What is left when the check has found no row. -/
def connectingCode (username userpasswd : Bytes) : Handler Conn Bool :=
  .call .getConnection fun
    | none => .done false
    | some sqlconn => insertingCode username userpasswd sqlconn

/-- What is left when the SELECT has been answered with `res`. -/
def answeredCode (username userpasswd : Bytes) (sqlconn : Conn) (res : List Bytes) :
    Handler Conn Bool :=
  .call (.releaseConnection sqlconn) fun _ =>
    if res.length > 0 then .done false else connectingCode username userpasswd

/-- What is left when the first connection has been obtained. -/
def selectingCode (username userpasswd : Bytes) (sqlconn : Conn) : Handler Conn Bool :=
  .call (.realQuery sqlconn (selectQuery username)) fun
    | .error => answeredCode username userpasswd sqlconn []
    | .noResult => abort .nullResult
    | .noRow => answeredCode username userpasswd sqlconn []
    | .row fields => readRow fields >>= answeredCode username userpasswd sqlconn

/-- The whole of `insertNewUser`. -/
def askingCode (username userpasswd : Bytes) : Handler Conn Bool :=
  .call .getConnection fun
    | none => connectingCode username userpasswd
    | some sqlconn => selectingCode username userpasswd sqlconn

/-- The code that is left. -/
def code (username userpasswd : Bytes) : Stage Conn → Handler Conn Bool
  | .asking => askingCode username userpasswd
  | .selecting sqlconn => selectingCode username userpasswd sqlconn
  | .answered sqlconn res => answeredCode username userpasswd sqlconn res
  | .connecting => connectingCode username userpasswd
  | .inserting sqlconn => insertingCode username userpasswd sqlconn
  | .closing sqlconn ok => closingCode sqlconn ok
  | .returning ok => .done ok

/-- What `insertNewUser` does with the answer of `getQueryRes`. -/
def checkedCode (username userpasswd : Bytes) (preQuery : List Bytes) : Handler Conn Bool :=
  if preQuery.length > 0 then .done false else connectingCode username userpasswd

theorem insertNewUser_eq_bind (username userpasswd : Bytes) :
    (insertNewUser username userpasswd : Handler Conn Bool) =
      getQueryRes username >>= checkedCode username userpasswd := by
  unfold insertNewUser
  congr 1
  funext preQuery
  unfold checkedCode
  by_cases hfound : preQuery.length > 0
  · rw [if_pos hfound, if_pos hfound]
    rfl
  · rw [if_neg hfound, if_neg hfound]
    show Program.call _ _ = Program.call _ _
    congr 1
    funext sqlconn
    cases sqlconn with
    | none => rfl
    | some sqlconn =>
      show Program.call _ _ = Program.call _ _
      congr 1
      funext answer
      cases answer <;> rfl

/-- **The stages are those of `insertNewUser`.** -/
theorem insertNewUser_eq (username userpasswd : Bytes) :
    (insertNewUser username userpasswd : Handler Conn Bool) =
      code username userpasswd .asking := by
  rw [insertNewUser_eq_bind]
  unfold getQueryRes
  show Program.call _ _ = Program.call _ _
  congr 1
  funext sqlconn
  cases sqlconn with
  | none => rfl
  | some sqlconn =>
    show Program.call _ _ = Program.call _ _
    congr 1
    funext answer
    cases answer with
    | error => rfl
    | noResult =>
      show Program.call _ _ = Program.call _ _
      congr 1
      funext r
      exact nomatch r
    | noRow => rfl
    | row fields =>
      show ((readRow fields).bind _).bind _ = (readRow fields).bind _
      unfold readRow
      cases fields.mapM id with
      | some fields => rfl
      | none =>
        show Program.call _ _ = Program.call _ _
        congr 1
        funext r
        exact nomatch r

end Stage

/-! ## The table and the calls -/

/-- A row of `userdata`. -/
structure UserRow where
  id : Bytes
  username : Bytes
  password : Bytes
  deriving DecidableEq

/-- A call of `insertNewUser`. -/
inductive InsertCall (Conn : Type) where
  | idle
  /-- With the code that is left. -/
  | running (username userpasswd : Bytes) (rest : Handler Conn Bool)
  | returned (username : Bytes) (result : Bool)

/-- Whose registration it is. -/
def InsertCall.username? {Conn : Type} : InsertCall Conn → Option Bytes
  | .idle => none
  | .running username _ _ => some username
  | .returned username _ => some username

/-- What became of a call's check. -/
structure CheckRecord where
  checked : Bool := false
  /-- It could not be asked, and the username was there. -/
  unasked : Bool := false
  /-- Another call has inserted the username since. -/
  overtaken : Bool := false
  /-- The call's INSERT has gone through. -/
  inserted : Bool := false

/-- Calls of `insertNewUser` on one table. -/
structure Registration (K Conn : Type) where
  table : List UserRow
  calls : K → InsertCall Conn
  records : K → CheckRecord

/-- What the environment decides: the connection that `GetConnection` gives, whether a query fails,
and the `id` of a new row. -/
structure Fate (Conn : Type) where
  sqlconn : Option Conn := none
  fails : Bool := false
  id : Bytes := []

/-- The steps of the calls. -/
inductive RegisterAction (K Conn : Type) where
  | call (k : K) (username userpasswd : Bytes)
  /-- The next call that leaves the program, or the return. -/
  | proceed (k : K) (fate : Fate Conn)

namespace Registration

variable {K Conn : Type}

/-- The usernames of the table. -/
def usernames (s : Registration K Conn) : List Bytes := s.table.map UserRow.username

/-- A SELECT. -/
def select (collate : Bytes → Bytes → Bool) (table : List UserRow) (username : Bytes) :
    QueryAnswer :=
  match table.find? fun row => collate row.username username with
  | some row => .row [some row.id, some row.username, some row.password]
  | none => .noRow

/-- What a call that leaves the program gets, and what it does to the table. -/
def reply (collate : Bytes → Bytes → Bool) (table : List UserRow) (username userpasswd : Bytes)
    (fate : Fate Conn) : (op : ExternalCall Conn) → Option (op.Answer × List UserRow)
  | .getConnection => some (fate.sqlconn, table)
  | .realQuery _ query =>
    if fate.fails then some (.error, table)
    else if query = selectQuery username then some (select collate table username, table)
    else if query = insertQuery username userpasswd then
      some (.noRow, table ++ [⟨fate.id, username, userpasswd⟩])
    else none
  | .releaseConnection _ => some ((), table)
  | _ => none

section Step

variable [DecidableEq K]

/-- The records after a call that leaves the program. -/
def note (s : Registration K Conn) (k : K) (username : Bytes) (fate : Fate Conn) :
    ExternalCall Conn → K → CheckRecord
  | .getConnection =>
    if (s.records k).checked = false ∧ fate.sqlconn.isNone then
      Function.update s.records k
        { s.records k with checked := true, unasked := s.usernames.contains username }
    else s.records
  | .realQuery _ _ =>
    if (s.records k).checked = false then
      Function.update s.records k
        { s.records k with
          checked := true
          unasked := fate.fails && s.usernames.contains username }
    else if fate.fails then s.records
    else fun j =>
      if j = k then { s.records k with inserted := true }
      else if (s.records j).checked ∧ (s.calls j).username? = some username then
        { s.records j with overtaken := true }
      else s.records j
  | _ => s.records

/-- The next call of call `k`, answered by the table as `fate` has it. -/
def proceed (collate : Bytes → Bytes → Bool) (s : Registration K Conn) (k : K)
    (fate : Fate Conn) : Registration K Conn :=
  match s.calls k with
  | .running username userpasswd (.call op next) =>
    match reply collate s.table username userpasswd fate op with
    | some (answer, table) =>
      { table
        calls := Function.update s.calls k (.running username userpasswd (next answer))
        records := s.note k username fate op }
    | none => s
  | .running username _ (.done result) =>
    { s with calls := Function.update s.calls k (.returned username result) }
  | _ => s

/-- The calls, in any interleaving. -/
def machine (collate : Bytes → Bytes → Bool) :
    Machine (Registration K Conn) (RegisterAction K Conn) where
  init s := s.usernames.Nodup ∧ (∀ k, s.calls k = .idle) ∧ ∀ k, s.records k = {}
  guard s
    | .call k _ _ => s.calls k = .idle
    | .proceed k _ => ∃ username userpasswd rest, s.calls k = .running username userpasswd rest
  next s
    | .call k username userpasswd =>
      { s with
        calls := Function.update s.calls k
          (.running username userpasswd (insertNewUser username userpasswd)) }
    | .proceed k fate => s.proceed collate k fate

end Step

/-- The INSERT of call `k` goes through. -/
def Inserts (s : Registration K Conn) (k : K) (fate : Fate Conn) : Prop :=
  (s.records k).checked = true ∧ fate.fails = false ∧
    ∃ username userpasswd sqlconn query next,
      s.calls k = .running username userpasswd (.call (.realQuery sqlconn query) next)

/-- **The condition**: no INSERT goes through for a call whose check could not be asked while the
username was there, or that another call has overtaken since its check. -/
def Checked (s : Registration K Conn) : RegisterAction K Conn → Prop
  | .call _ _ _ => True
  | .proceed k fate =>
    s.Inserts k fate → (s.records k).unasked = false ∧ (s.records k).overtaken = false

/-- **Registered once**: no two rows with one username, and at most one call that returned `true`
for it. -/
structure RegisteredOnce (s : Registration K Conn) : Prop where
  rows : s.usernames.Nodup
  calls : ∀ j k username, s.calls j = .returned username true →
    s.calls k = .returned username true → j = k

end Registration

/-! ## The invariant -/

namespace Stage

variable {Conn : Type}

/-- The check is over. -/
def checked : Stage Conn → Bool
  | .asking | .selecting _ => false
  | _ => true

/-- The check is over and found nothing, and the INSERT is to come. -/
def Clear : Stage Conn → Prop
  | .answered _ res => res = []
  | .connecting | .inserting _ => True
  | _ => False

/-- The INSERT has gone through. -/
def inserted : Stage Conn → Bool
  | .closing _ ok | .returning ok => ok
  | _ => false

end Stage

namespace Registration

variable {K Conn : Type}

/-- What the record of a call says at a stage: a call whose check found nothing is wrong about it
exactly if the check could not be asked, or was overtaken. -/
structure AtStage (names : List Bytes) (username : Bytes) (stage : Stage Conn)
    (record : CheckRecord) : Prop where
  checked : record.checked = stage.checked
  clear : stage.Clear →
    (username ∈ names ↔ record.unasked = true ∨ record.overtaken = true)
  fresh : stage.checked = false → record.overtaken = false
  inserted : record.inserted = stage.inserted

/-- The invariant of one call. -/
def CallInv (names : List Bytes) : InsertCall Conn → CheckRecord → Prop
  | .idle, record => record = {}
  | .running username userpasswd rest, record =>
    ∃ stage : Stage Conn, rest = stage.code username userpasswd ∧
      AtStage names username stage record
  | .returned _ result, record => record.inserted = result

/-- The invariant of all calls. -/
structure Inv (s : Registration K Conn) : Prop where
  call : ∀ k, CallInv s.usernames (s.calls k) (s.records k)
  there : ∀ k, (s.records k).inserted = true →
    ∃ username ∈ s.usernames, (s.calls k).username? = some username
  once : ∀ j k, (s.records j).inserted = true → (s.records k).inserted = true →
    (s.calls j).username? = (s.calls k).username? → j = k

/-- What the invariant says of the calls that have returned. -/
theorem Inv.calls_once {s : Registration K Conn} (h : s.Inv) {i j : K} {username : Bytes}
    (hi : s.calls i = .returned username true) (hj : s.calls j = .returned username true) :
    i = j := by
  have hi' := h.call i
  have hj' := h.call j
  rw [hi] at hi'
  rw [hj] at hj'
  exact h.once i j hi' hj' (by rw [hi, hj])

section Step

variable [DecidableEq K] {collate : Bytes → Bytes → Bool} {s : Registration K Conn} {k : K}
  {username userpasswd : Bytes} {fate : Fate Conn}

/-- A step that changes one call, and not the table. -/
theorem Inv.update (h : s.Inv) (call : InsertCall Conn) (record : CheckRecord)
    (hcall : CallInv s.usernames call record)
    (hname : record.inserted = true → call.username? = (s.calls k).username?)
    (hins : record.inserted = (s.records k).inserted) :
    Inv { s with
      calls := Function.update s.calls k call
      records := Function.update s.records k record } := by
  have hsame : ∀ j, (Function.update s.records k record j).inserted = (s.records j).inserted := by
    intro j
    rw [Function.update_apply]
    split
    · rename_i hj
      rw [hj, hins]
    · rfl
  have hnames : ∀ j, (s.records j).inserted = true →
      (Function.update s.calls k call j).username? = (s.calls j).username? := by
    intro j hj
    rw [Function.update_apply]
    split
    · rename_i heq
      rw [heq] at hj ⊢
      exact hname (hins.trans hj)
    · rfl
  refine ⟨fun j => ?_, fun j hj => ?_, fun i j hi hj heq => ?_⟩
  · show CallInv s.usernames (Function.update s.calls k call j)
      (Function.update s.records k record j)
    rw [Function.update_apply, Function.update_apply]
    split
    · exact hcall
    · exact h.call j
  · have hj' : (s.records j).inserted = true := (hsame j).symm.trans hj
    obtain ⟨u, hu, hname'⟩ := h.there j hj'
    exact ⟨u, hu, (hnames j hj').trans hname'⟩
  · have hi' : (s.records i).inserted = true := (hsame i).symm.trans hi
    have hj' : (s.records j).inserted = true := (hsame j).symm.trans hj
    exact h.once i j hi' hj' ((hnames i hi').symm.trans (heq.trans (hnames j hj')))

/-- A running call goes from one stage to the next. -/
theorem Inv.advance (h : s.Inv) {rest : Handler Conn Bool} (stage : Stage Conn)
    {record : CheckRecord} (hcall : s.calls k = .running username userpasswd rest)
    (hstage : AtStage s.usernames username stage record)
    (hins : record.inserted = (s.records k).inserted) :
    Inv { s with
      calls := Function.update s.calls k
        (.running username userpasswd (stage.code username userpasswd))
      records := Function.update s.records k record } :=
  h.update _ _ ⟨stage, rfl, hstage⟩ (fun _ => by rw [hcall]; rfl) hins

/-- The check is answered. -/
theorem select_spec (hcollate : ∀ u, collate u u = true) (table : List UserRow) (username : Bytes) :
    (select collate table username = .noRow ∧ username ∉ table.map UserRow.username) ∨
      ∃ a b c, select collate table username = .row [some a, some b, some c] := by
  unfold select
  cases hfind : table.find? fun row => collate row.username username with
  | some row => exact .inr ⟨_, _, _, rfl⟩
  | none =>
    refine .inl ⟨rfl, fun hmem => ?_⟩
    obtain ⟨row, hrow, hname⟩ := List.mem_map.mp hmem
    have hnot := List.find?_eq_none.mp hfind row hrow
    rw [hname] at hnot
    exact hnot (hcollate username)

theorem proceed_eq {op : ExternalCall Conn} {next : op.Answer → Handler Conn Bool}
    {answer : op.Answer} {table : List UserRow}
    (hcall : s.calls k = .running username userpasswd (.call op next))
    (hreply : reply collate s.table username userpasswd fate op = some (answer, table)) :
    s.proceed collate k fate =
      { table
        calls := Function.update s.calls k (.running username userpasswd (next answer))
        records := s.note k username fate op } := by
  unfold proceed
  rw [hcall]
  simp only [hreply]

/-- A step that leaves the table and the records alone. -/
theorem Inv.goOn (h : s.Inv) {rest : Handler Conn Bool} (stage : Stage Conn)
    (hcall : s.calls k = .running username userpasswd rest)
    (hstage : AtStage s.usernames username stage (s.records k)) :
    Inv { s with
      calls := Function.update s.calls k
        (.running username userpasswd (stage.code username userpasswd)) } := by
  have hinv := h.advance stage hcall hstage rfl
  rwa [Function.update_eq_self] at hinv

/-- The first `GetConnection`: without a connection the check is over. -/
theorem asking_inv (h : s.Inv)
    (hcall : s.calls k = .running username userpasswd (Stage.askingCode username userpasswd))
    (hstage : AtStage s.usernames username (.asking : Stage Conn) (s.records k)) :
    (s.proceed collate k fate).Inv := by
  have hunchecked : (s.records k).checked = false := hstage.checked
  have hreply : reply collate s.table username userpasswd fate .getConnection =
      some (fate.sqlconn, s.table) := rfl
  rw [proceed_eq hcall hreply]
  unfold note
  cases hconn : fate.sqlconn with
  | none =>
    rw [if_pos ⟨hunchecked, rfl⟩]
    refine h.advance .connecting hcall ⟨rfl, fun _ => ?_, nofun, hstage.inserted⟩ rfl
    have hfresh := hstage.fresh rfl
    simp [hfresh]
  | some sqlconn =>
    rw [if_neg fun hc => by simp at hc]
    exact h.goOn (.selecting sqlconn) hcall
      ⟨hstage.checked, nofun, hstage.fresh, hstage.inserted⟩

/-- The SELECT, or its failure: the check is over. -/
theorem selecting_inv (hcollate : ∀ u, collate u u = true) (h : s.Inv) {sqlconn : Conn}
    (hcall : s.calls k =
      .running username userpasswd (Stage.selectingCode username userpasswd sqlconn))
    (hstage : AtStage s.usernames username (.selecting sqlconn) (s.records k)) :
    (s.proceed collate k fate).Inv := by
  have hunchecked : (s.records k).checked = false := hstage.checked
  have hfresh : (s.records k).overtaken = false := hstage.fresh rfl
  by_cases hfails : fate.fails = true
  · have hreply : reply collate s.table username userpasswd fate
        (.realQuery sqlconn (selectQuery username)) = some (.error, s.table) := if_pos hfails
    rw [proceed_eq hcall hreply]
    unfold note
    rw [if_pos hunchecked]
    refine h.advance (.answered sqlconn []) hcall
      ⟨rfl, fun _ => ?_, nofun, hstage.inserted⟩ rfl
    simp [hfails, hfresh]
  · have hreply : reply collate s.table username userpasswd fate
        (.realQuery sqlconn (selectQuery username)) =
        some (select collate s.table username, s.table) :=
      (if_neg hfails).trans (if_pos rfl)
    rw [proceed_eq hcall hreply]
    unfold note
    rw [if_pos hunchecked]
    rcases select_spec hcollate s.table username with ⟨hnone, habsent⟩ | ⟨a, b, c, hrow⟩
    · rw [hnone]
      refine h.advance (.answered sqlconn []) hcall
        ⟨rfl, fun _ => ?_, nofun, hstage.inserted⟩ rfl
      exact iff_of_false habsent (by simp [hfails, hfresh])
    · rw [hrow]
      exact h.advance (.answered sqlconn [cString a, cString b, cString c]) hcall
        ⟨rfl, nofun, nofun, hstage.inserted⟩ rfl

/-- The rest of the check, and what follows the INSERT: nothing but the stage changes. -/
theorem releasing_inv (h : s.Inv) {rest : Handler Conn Bool} (stage : Stage Conn) {sqlconn : Conn}
    (hcall : s.calls k =
      .running username userpasswd (.call (.releaseConnection sqlconn) fun _ => rest))
    (hrest : rest = stage.code username userpasswd)
    (hstage : AtStage s.usernames username stage (s.records k)) :
    (s.proceed collate k fate).Inv := by
  have hreply : reply collate s.table username userpasswd fate (.releaseConnection sqlconn) =
      some ((), s.table) := rfl
  rw [proceed_eq hcall hreply, hrest]
  exact h.goOn stage hcall hstage

/-- The second `GetConnection`. -/
theorem connecting_inv (h : s.Inv)
    (hcall : s.calls k = .running username userpasswd (Stage.connectingCode username userpasswd))
    (hstage : AtStage s.usernames username (.connecting : Stage Conn) (s.records k)) :
    (s.proceed collate k fate).Inv := by
  have hchecked : (s.records k).checked = true := hstage.checked
  have hreply : reply collate s.table username userpasswd fate .getConnection =
      some (fate.sqlconn, s.table) := rfl
  rw [proceed_eq hcall hreply]
  unfold note
  rw [if_neg fun hc => by simp [hchecked] at hc]
  cases fate.sqlconn with
  | none =>
    exact h.goOn (.returning false) hcall
      ⟨hstage.checked, nofun, hstage.fresh, hstage.inserted⟩
  | some sqlconn =>
    exact h.goOn (.inserting sqlconn) hcall
      ⟨hstage.checked, hstage.clear, hstage.fresh, hstage.inserted⟩

/-- The INSERT. -/
theorem inserting_eq {sqlconn : Conn}
    (hcall : s.calls k =
      .running username userpasswd (Stage.insertingCode username userpasswd sqlconn))
    (hchecked : (s.records k).checked = true) (hfails : fate.fails = false) :
    s.proceed collate k fate =
      { table := s.table ++ [⟨fate.id, username, userpasswd⟩]
        calls := Function.update s.calls k
          (.running username userpasswd ((Stage.closing sqlconn true).code username userpasswd))
        records := fun j =>
          if j = k then { s.records k with inserted := true }
          else if (s.records j).checked ∧ (s.calls j).username? = some username then
            { s.records j with overtaken := true }
          else s.records j } := by
  have hquery : ¬ insertQuery username userpasswd = selectQuery username := fun heq =>
    selectQuery_ne_insertQuery _ _ _ heq.symm
  have hreply : reply collate s.table username userpasswd fate
      (.realQuery sqlconn (insertQuery username userpasswd)) =
      some (.noRow, s.table ++ [⟨fate.id, username, userpasswd⟩]) :=
    (if_neg (by simp [hfails])).trans ((if_neg hquery).trans (if_pos rfl))
  have hnote : s.note k username fate
      (.realQuery sqlconn (insertQuery username userpasswd)) = fun j =>
        if j = k then { s.records k with inserted := true }
        else if (s.records j).checked ∧ (s.calls j).username? = some username then
          { s.records j with overtaken := true }
        else s.records j :=
    (if_neg (by simp [hchecked])).trans (if_neg (by simp [hfails]))
  rw [proceed_eq hcall hreply, hnote]
  rfl

/-- Another call's record, when the username is inserted. -/
theorem callInv_overtaken {call : InsertCall Conn} {record : CheckRecord} {names : List Bytes}
    (h : CallInv names call record) :
    CallInv (names ++ [username]) call
      (if record.checked ∧ call.username? = some username then { record with overtaken := true }
        else record) := by
  cases call with
  | idle =>
    have hno : ¬(record.checked = true ∧ (InsertCall.idle : InsertCall Conn).username? =
        some username) := fun hc => nomatch hc.2
    rwa [if_neg hno]
  | returned name result =>
    have hins : record.inserted = result := h
    show CheckRecord.inserted _ = result
    split <;> exact hins
  | running name userpasswd rest =>
    obtain ⟨stage, hrest, hstage⟩ := h
    refine ⟨stage, hrest, ?_⟩
    show AtStage _ name stage (if record.checked = true ∧ some name = some username then _ else _)
    by_cases hname : record.checked = true ∧ some name = some username
    · rw [if_pos hname]
      have hsame : name = username := Option.some.inj hname.2
      refine ⟨hstage.checked, fun _ => iff_of_true ?_ (.inr rfl), fun hc => ?_, hstage.inserted⟩
      · rw [hsame]
        exact List.mem_append_right _ List.mem_cons_self
      · exact nomatch hname.1.symm.trans (hstage.checked.trans hc)
    · rw [if_neg hname]
      refine ⟨hstage.checked, fun hclear => ?_, hstage.fresh, hstage.inserted⟩
      have hchecked : record.checked = true := by
        rw [hstage.checked]
        cases stage <;> first | rfl | exact False.elim hclear
      have hother : name ∉ [username] := fun hmem =>
        hname ⟨hchecked, congrArg some (List.mem_singleton.mp hmem)⟩
      rw [List.mem_append, or_iff_left hother]
      exact hstage.clear hclear

/-- **An INSERT that goes through for a call whose check is right.** -/
theorem inserting_inv (h : s.Inv) {sqlconn : Conn}
    (hcall : s.calls k =
      .running username userpasswd (Stage.insertingCode username userpasswd sqlconn))
    (hstage : AtStage s.usernames username (.inserting sqlconn) (s.records k))
    (hfails : fate.fails = false) (habsent : username ∉ s.usernames) :
    (s.proceed collate k fate).Inv := by
  rw [inserting_eq hcall hstage.checked hfails]
  have hnames : List.map UserRow.username (s.table ++ [⟨fate.id, username, userpasswd⟩]) =
      s.usernames ++ [username] := List.map_append
  have hcalls : ∀ j, j ≠ k → ∀ c : InsertCall Conn, Function.update s.calls k c j = s.calls j :=
    fun j hj c => Function.update_of_ne hj c s.calls
  -- a call that has inserted is `k`, or has inserted another username before
  have hinserted : ∀ j, CheckRecord.inserted
      (if j = k then { s.records k with inserted := true }
        else if (s.records j).checked ∧ (s.calls j).username? = some username then
          { s.records j with overtaken := true }
        else s.records j) = true → j = k ∨ j ≠ k ∧ (s.records j).inserted = true := by
    intro j hj
    by_cases hjk : j = k
    · exact .inl hjk
    · rw [if_neg hjk] at hj
      refine .inr ⟨hjk, ?_⟩
      split at hj <;> exact hj
  refine ⟨fun j => ?_, fun j hj => ?_, fun i j hi hj heq => ?_⟩
  · show CallInv (List.map _ _) (Function.update s.calls k _ j) (if j = k then _ else _)
    rw [hnames]
    by_cases hjk : j = k
    · subst hjk
      rw [Function.update_self, if_pos rfl]
      exact ⟨.closing sqlconn true, rfl, hstage.checked, nofun, hstage.fresh, rfl⟩
    · rw [hcalls j hjk, if_neg hjk]
      exact callInv_overtaken (h.call j)
  · show ∃ u ∈ List.map _ _, (Function.update s.calls k _ j).username? = some u
    rw [hnames]
    rcases hinserted j hj with rfl | ⟨hjk, hj'⟩
    · rw [Function.update_self]
      exact ⟨username, List.mem_append_right _ List.mem_cons_self, rfl⟩
    · rw [hcalls j hjk]
      obtain ⟨u, hu, hname⟩ := h.there j hj'
      exact ⟨u, List.mem_append_left _ hu, hname⟩
  · have hother : ∀ j, (s.records j).inserted = true → (s.calls j).username? ≠ some username := by
      intro j hj' hname
      obtain ⟨u, hu, hname'⟩ := h.there j hj'
      exact habsent (Option.some.inj (hname'.symm.trans hname) ▸ hu)
    change (Function.update s.calls k _ i).username? = (Function.update s.calls k _ j).username?
      at heq
    rcases hinserted i hi with rfl | ⟨hik, hi'⟩
    · rcases hinserted j hj with rfl | ⟨hjk, hj'⟩
      · rfl
      · rw [Function.update_self, hcalls j hjk] at heq
        exact absurd heq.symm (hother j hj')
    · rcases hinserted j hj with rfl | ⟨hjk, hj'⟩
      · rw [Function.update_self, hcalls i hik] at heq
        exact absurd heq (hother i hi')
      · rw [hcalls i hik, hcalls j hjk] at heq
        exact h.once i j hi' hj' heq

/-! ## Every step -/

/-- Only an INSERT that goes through changes the table. -/
theorem table_proceed {op : ExternalCall Conn} {next : op.Answer → Handler Conn Bool}
    (hcall : s.calls k = .running username userpasswd (.call op next))
    (hop : ∀ sqlconn, op = .realQuery sqlconn (insertQuery username userpasswd) →
      fate.fails = true) : (s.proceed collate k fate).table = s.table := by
  cases hreply : reply collate s.table username userpasswd fate op with
  | none =>
    unfold proceed
    rw [hcall]
    simp only [hreply]
  | some result =>
    obtain ⟨answer, table⟩ := result
    rw [proceed_eq hcall hreply]
    cases op with
    | realQuery sqlconn query =>
      unfold reply at hreply
      by_cases hfails : fate.fails = true
      · exact (Prod.mk.inj (Option.some.inj ((if_pos hfails).symm.trans hreply))).2.symm
      · have hreply' := (if_neg hfails).symm.trans hreply
        by_cases hselect : query = selectQuery username
        · exact (Prod.mk.inj (Option.some.inj ((if_pos hselect).symm.trans hreply'))).2.symm
        · have hreply'' := (if_neg hselect).symm.trans hreply'
          by_cases hinsert : query = insertQuery username userpasswd
          · exact absurd (hop sqlconn (by rw [hinsert])) hfails
          · exact nomatch (if_neg hinsert).symm.trans hreply''
    | getConnection => exact (Prod.mk.inj (Option.some.inj hreply)).2.symm
    | releaseConnection sqlconn => exact (Prod.mk.inj (Option.some.inj hreply)).2.symm
    | stat filename => exact nomatch hreply
    | mmap filename size => exact nomatch hreply
    | abort why => exact nomatch hreply

/-- A step that is not a query inserts nothing. -/
theorem leaves_table {op : ExternalCall Conn} {next : op.Answer → Handler Conn Bool}
    (hcall : s.calls k = .running username userpasswd (.call op next))
    (hop : ∀ sqlconn query, op ≠ .realQuery sqlconn query) :
    ¬ s.Inserts k fate ∧ (s.proceed collate k fate).table = s.table := by
  constructor
  · rintro ⟨-, -, _, _, sqlconn, query, _, hquery⟩
    have hrest := (InsertCall.running.inj (hcall.symm.trans hquery)).2.2
    exact hop sqlconn query (Program.call.inj hrest).1
  · exact table_proceed hcall fun sqlconn heq => absurd heq (hop sqlconn _)

/-- A step of a running call: it inserts, at the stage where its record says whether its check is
right, or it leaves the table alone. -/
theorem inserts_or (collate : Bytes → Bytes → Bool) (fate : Fate Conn) (h : s.Inv)
    {rest : Handler Conn Bool} (hcall : s.calls k = .running username userpasswd rest) :
    (∃ sqlconn, rest = Stage.insertingCode username userpasswd sqlconn ∧ s.Inserts k fate ∧
      AtStage s.usernames username (.inserting sqlconn) (s.records k)) ∨
    ¬ s.Inserts k fate ∧ (s.proceed collate k fate).table = s.table := by
  have hinv := h.call k
  rw [hcall] at hinv
  obtain ⟨stage, rfl, hstage⟩ := hinv
  cases stage with
  | asking => exact .inr (leaves_table hcall nofun)
  | selecting sqlconn =>
    refine .inr ⟨fun hins => (nomatch hstage.checked.symm.trans hins.1), table_proceed hcall ?_⟩
    intro c heq
    exact absurd (ExternalCall.realQuery.inj heq).2 (selectQuery_ne_insertQuery _ _ _)
  | answered sqlconn res => exact .inr (leaves_table hcall nofun)
  | connecting => exact .inr (leaves_table hcall nofun)
  | inserting sqlconn =>
    by_cases hfails : fate.fails = true
    · exact .inr ⟨fun hins => (nomatch hfails.symm.trans hins.2.1),
        table_proceed hcall fun _ _ => hfails⟩
    · exact .inl ⟨sqlconn, rfl,
        ⟨hstage.checked, by simpa using hfails, _, _, _, _, _, hcall⟩, hstage⟩
  | closing sqlconn ok => exact .inr (leaves_table hcall nofun)
  | returning ok =>
    refine .inr ⟨fun ⟨_, _, _, _, _, _, _, heq⟩ => ?_, ?_⟩
    · exact nomatch hcall.symm.trans heq
    · unfold proceed
      rw [hcall]
      rfl

theorem call_inv (h : s.Inv) (hidle : s.calls k = .idle) (username userpasswd : Bytes) :
    Inv { s with
      calls := Function.update s.calls k
        (.running username userpasswd (insertNewUser username userpasswd)) } := by
  have hrecord : s.records k = {} := by
    have hcall := h.call k
    rwa [hidle] at hcall
  have hinv := h.update (k := k)
    (.running username userpasswd (insertNewUser username userpasswd)) (s.records k)
    ⟨.asking, Stage.insertNewUser_eq username userpasswd, by
      rw [hrecord]
      exact ⟨rfl, nofun, fun _ => rfl, rfl⟩⟩
    (fun hins => by rw [hrecord] at hins; exact nomatch hins) rfl
  rwa [Function.update_eq_self] at hinv

/-- **A step that meets the condition keeps the invariant.** -/
theorem proceed_inv (hcollate : ∀ u, collate u u = true) (h : s.Inv) {rest : Handler Conn Bool}
    (hcall : s.calls k = .running username userpasswd rest)
    (hC : s.Checked (.proceed k fate)) : (s.proceed collate k fate).Inv := by
  have hinv := h.call k
  rw [hcall] at hinv
  obtain ⟨stage, rfl, hstage⟩ := hinv
  cases stage with
  | asking => exact asking_inv h hcall hstage
  | selecting sqlconn => exact selecting_inv hcollate h hcall hstage
  | answered sqlconn res =>
    by_cases hres : res = []
    · exact releasing_inv h .connecting hcall (by rw [hres]; rfl)
        ⟨hstage.checked, fun _ => hstage.clear hres, hstage.fresh, hstage.inserted⟩
    · exact releasing_inv h (.returning false) hcall
        (if_pos (List.length_pos_iff.mpr hres))
        ⟨hstage.checked, nofun, hstage.fresh, hstage.inserted⟩
  | connecting => exact connecting_inv h hcall hstage
  | inserting sqlconn =>
    cases hfails : fate.fails with
    | true =>
      have hreply : reply collate s.table username userpasswd fate
          (.realQuery sqlconn (insertQuery username userpasswd)) = some (.error, s.table) :=
        if_pos hfails
      have hchecked : ¬(s.records k).checked = false := by
        rw [hstage.checked]
        exact nofun
      have hnote : s.note k username fate
          (.realQuery sqlconn (insertQuery username userpasswd)) = s.records :=
        (if_neg hchecked).trans (if_pos hfails)
      rw [proceed_eq hcall hreply, hnote]
      exact h.goOn (.closing sqlconn false) hcall
        ⟨hstage.checked, nofun, hstage.fresh, hstage.inserted⟩
    | false =>
      obtain ⟨hasked, hovertaken⟩ := hC ⟨hstage.checked, hfails, _, _, _, _, _, hcall⟩
      refine inserting_inv h hcall hstage hfails fun hmem => ?_
      rcases (hstage.clear trivial).mp hmem with hunasked | hover
      · exact nomatch hasked.symm.trans hunasked
      · exact nomatch hovertaken.symm.trans hover
  | closing sqlconn ok =>
    exact releasing_inv h (.returning ok) hcall rfl
      ⟨hstage.checked, nofun, hstage.fresh, hstage.inserted⟩
  | returning ok =>
    have hreturn : s.proceed collate k fate =
        { s with calls := Function.update s.calls k (.returned username ok) } := by
      unfold proceed
      rw [hcall]
      rfl
    have hupdate := h.update (k := k) (.returned username ok) (s.records k)
      hstage.inserted (fun _ => by rw [hcall]; rfl) rfl
    rw [hreturn]
    rwa [Function.update_eq_self] at hupdate

theorem next_inv (hcollate : ∀ u, collate u u = true) {action : RegisterAction K Conn}
    (h : s.Inv) (hg : (machine collate).guard s action) (hC : s.Checked action) :
    ((machine collate).next s action).Inv := by
  cases action with
  | call k username userpasswd => exact call_inv h hg username userpasswd
  | proceed k fate =>
    obtain ⟨username, userpasswd, rest, hcall⟩ := hg
    exact proceed_inv hcollate h hcall hC

/-- **A step keeps usernames unique exactly when it meets the condition.** -/
theorem next_registeredOnce_iff (hcollate : ∀ u, collate u u = true)
    {action : RegisterAction K Conn} (h : s.Inv) (hP : s.RegisteredOnce)
    (hg : (machine collate).guard s action) :
    ((machine collate).next s action).RegisteredOnce ↔ s.Checked action := by
  cases action with
  | call k username userpasswd =>
    have hinv := call_inv h hg username userpasswd
    exact iff_of_true ⟨hP.rows, fun i j u hi hj => hinv.calls_once hi hj⟩ trivial
  | proceed k fate =>
    obtain ⟨username, userpasswd, rest, hcall⟩ := hg
    rcases inserts_or collate fate h hcall with
      ⟨sqlconn, rfl, hins, hstage⟩ | ⟨hnot, htable⟩
    · have hnames : (s.proceed collate k fate).usernames = s.usernames ++ [username] := by
        unfold usernames
        rw [inserting_eq hcall hstage.checked hins.2.1]
        exact List.map_append
      constructor
      · intro honce hins'
        have hrows : (s.proceed collate k fate).usernames.Nodup := honce.rows
        rw [hnames] at hrows
        have habsent : username ∉ s.usernames := fun hmem =>
          List.disjoint_of_nodup_append hrows hmem List.mem_cons_self
        have hflags := mt (hstage.clear trivial).mpr habsent
        rw [not_or] at hflags
        exact ⟨by simpa using hflags.1, by simpa using hflags.2⟩
      · intro hC
        have hinv := proceed_inv hcollate h hcall hC
        obtain ⟨hasked, hovertaken⟩ := hC hins
        have habsent : username ∉ s.usernames := fun hmem => by
          rcases (hstage.clear trivial).mp hmem with hunasked | hover
          · exact nomatch hasked.symm.trans hunasked
          · exact nomatch hovertaken.symm.trans hover
        refine ⟨?_, fun i j u hi hj => hinv.calls_once hi hj⟩
        show (s.proceed collate k fate).usernames.Nodup
        rw [hnames]
        exact List.nodup_append.mpr ⟨hP.rows, List.nodup_singleton _, fun a ha b hb heq =>
          habsent (List.mem_singleton.mp hb ▸ heq ▸ ha)⟩
    · have hC : s.Checked (.proceed k fate) := fun hins => absurd hins hnot
      have hinv := proceed_inv hcollate h hcall hC
      refine iff_of_true ⟨?_, fun i j u hi hj => hinv.calls_once hi hj⟩ hC
      show ((s.proceed collate k fate).table.map UserRow.username).Nodup
      rw [htable]
      exact hP.rows

theorem inv_init (hinit : (machine collate).init s) : s.Inv ∧ s.RegisteredOnce := by
  obtain ⟨hrows, hcalls, hrecords⟩ := hinit
  refine ⟨⟨fun k => ?_, fun k hk => ?_, fun i j hi => ?_⟩, hrows, fun i j u hi => ?_⟩
  · rw [hcalls k]
    exact hrecords k
  · rw [hrecords k] at hk
    exact nomatch hk
  · rw [hrecords i] at hi
    exact nomatch hi
  · rw [hcalls i] at hi
    exact nomatch hi

/-- **A username is registered once exactly when every INSERT has a check to rely on.** In a run of
any number of calls, with any interleaving, any connections refused and any queries failing, no two
rows ever have the same username, and no two calls return `true` for it, exactly when no INSERT
goes through for a call whose check could not be asked while the username was there, or whose
username another call has inserted since its check. -/
theorem registered_once_iff (hcollate : ∀ u, collate u u = true)
    (hinit : (machine collate).init s) {as : List (RegisterAction K Conn)}
    (hlegal : (machine collate).Legal s as) :
    (machine collate).Always RegisteredOnce s as ↔ (machine collate).Along Checked s as := by
  obtain ⟨hinv, honce⟩ := inv_init hinit
  exact Machine.always_iff_along (I := Inv)
    (fun _ _ hI _ hg hC => next_inv hcollate hI hg hC)
    (fun _ _ hI hP hg => next_registeredOnce_iff hcollate hI hP hg) hinv honce hlegal

end Step

/-- A table without rows, and no calls yet. -/
def fresh : Registration Bool Unit where
  table := []
  calls _ := .idle
  records _ := {}

theorem fresh_init : (machine (K := Bool) (· == ·)).init fresh :=
  ⟨List.nodup_nil, fun _ => rfl, fun _ => rfl⟩

/-- One call after the other. -/
theorem registered_once_iff_example :
    (machine (· == ·)).Always RegisteredOnce fresh
      [.call true (ascii "alice") (ascii "secret"), .proceed true ⟨some (), false, []⟩,
        .proceed true {}, .proceed true {}, .proceed true ⟨some (), false, []⟩, .proceed true {},
        .proceed true {}, .proceed true {}, .call false (ascii "alice") (ascii "guess"),
        .proceed false ⟨some (), false, []⟩, .proceed false {}] := by
  refine (registered_once_iff (fun u => by simp) fresh_init ?_).mpr ?_
  · exact ⟨rfl, ⟨_, _, _, rfl⟩, ⟨_, _, _, rfl⟩, ⟨_, _, _, rfl⟩, ⟨_, _, _, rfl⟩, ⟨_, _, _, rfl⟩,
      ⟨_, _, _, rfl⟩, ⟨_, _, _, rfl⟩, rfl, ⟨_, _, _, rfl⟩, ⟨_, _, _, rfl⟩, trivial⟩
  · exact ⟨trivial, fun _ => ⟨rfl, rfl⟩, fun _ => ⟨rfl, rfl⟩, fun _ => ⟨rfl, rfl⟩,
      fun _ => ⟨rfl, rfl⟩, fun _ => ⟨rfl, rfl⟩, fun _ => ⟨rfl, rfl⟩, fun _ => ⟨rfl, rfl⟩, trivial,
      fun _ => ⟨rfl, rfl⟩, fun _ => ⟨rfl, rfl⟩, trivial⟩

/-- **Two calls at the same time both register the username**: each of them checks before the other
inserts. And so does one call whose check is given no connection, after the other. -/
theorem registered_twice_example :
    (¬ ∀ s : Registration Bool Unit, (machine (· == ·)).init s → ∀ as,
      (machine (· == ·)).Legal s as → (machine (· == ·)).Always RegisteredOnce s as) ∧
    ¬ (machine (· == ·)).Always RegisteredOnce fresh
      [.call true (ascii "alice") (ascii "secret"), .proceed true ⟨some (), false, []⟩,
        .proceed true {}, .proceed true {}, .proceed true ⟨some (), false, []⟩, .proceed true {},
        .call false (ascii "alice") (ascii "guess"), .proceed false {},
        .proceed false ⟨some (), false, []⟩, .proceed false {}] := by
  constructor
  · intro h
    have hrun := h fresh fresh_init
      [.call true (ascii "alice") (ascii "secret"), .call false (ascii "alice") (ascii "guess"),
        .proceed true ⟨some (), false, []⟩, .proceed true {}, .proceed true {},
        .proceed false ⟨some (), false, []⟩, .proceed false {}, .proceed false {},
        .proceed true ⟨some (), false, []⟩, .proceed true {},
        .proceed false ⟨some (), false, []⟩, .proceed false {}]
      ⟨rfl, rfl, ⟨_, _, _, rfl⟩, ⟨_, _, _, rfl⟩, ⟨_, _, _, rfl⟩, ⟨_, _, _, rfl⟩, ⟨_, _, _, rfl⟩,
        ⟨_, _, _, rfl⟩, ⟨_, _, _, rfl⟩, ⟨_, _, _, rfl⟩, ⟨_, _, _, rfl⟩, ⟨_, _, _, rfl⟩, trivial⟩
    exact absurd hrun.last.rows (by decide +kernel)
  · intro h
    exact absurd h.last.rows (by decide +kernel)

end Registration

end SimpleHttpServer
