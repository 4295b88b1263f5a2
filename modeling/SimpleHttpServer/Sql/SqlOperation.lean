import SimpleHttpServer.Basic
import SimpleHttpServer.Lib.Program

/-!
# `SqlOperation`

`getQueryRes` and `insertNewUser` (`sql/SqlOperation.cpp`) as programs over the calls they make: of
the pool, and of the MySQL client. `mysql_store_result` and `mysql_fetch_row` read what the query
has left on the connection, so their first row is part of the query's answer. `Program.Uses` speaks
about every answer the database can give.
-/

namespace SimpleHttpServer

open Lib

/-- What ends a request handler in the middle. -/
inductive Abort where
  /-- `std::string(nullptr)`. -/
  | nullString
  /-- `mysql_fetch_row(nullptr)`. -/
  | nullResult
  /-- `std::string::substr` throws `std::out_of_range`. -/
  | outOfRange
  /-- An `int` overflows. -/
  | intOverflow
  /-- A read beyond the end of a vector. -/
  | overrun
  /-- A read through `MAP_FAILED`. -/
  | badMapping
  deriving DecidableEq, Repr

/-- What leaves the program, with connections `Conn`. -/
inductive ExternalCall (Conn : Type) where
  | getConnection
  | realQuery (sqlconn : Conn) (query : Bytes)
  | releaseConnection (sqlconn : Conn)
  | stat (filename : Bytes)
  /-- `open` and `mmap`. -/
  | mmap (filename : Bytes) (size : Nat)
  | abort (why : Abort)

/-- What `mysql_real_query` leaves. -/
inductive QueryAnswer where
  /-- Not `0`. -/
  | error
  /-- `mysql_store_result` gives `nullptr`. -/
  | noResult
  /-- `mysql_fetch_row` gives `nullptr`. -/
  | noRow
  /-- The first row; a field may be `NULL`. -/
  | row (fields : List (Option Bytes))

/-- The answers; nothing follows an `abort`. -/
def ExternalCall.Answer {Conn : Type} : ExternalCall Conn → Type
  | .getConnection => Option Conn
  | .realQuery _ _ => QueryAnswer
  | .releaseConnection _ => Unit
  | .stat _ => Option Nat
  | .mmap _ _ => Option Bytes
  | .abort _ => Empty

/-- A handler's code. -/
abbrev Handler (Conn : Type) := Program (ExternalCall Conn) ExternalCall.Answer

section

variable {Conn : Type}

/-- `pool->GetConnection()`. -/
def getConnection : Handler Conn (Option Conn) :=
  .perform ExternalCall.getConnection

/-- `mysql_real_query` and what reads its result. -/
def realQuery (sqlconn : Conn) (query : Bytes) : Handler Conn QueryAnswer :=
  .perform (ExternalCall.realQuery sqlconn query)

/-- `pool->ReleaseConnection(sqlconn)`. -/
def releaseConnection (sqlconn : Conn) : Handler Conn Unit :=
  .perform (ExternalCall.releaseConnection sqlconn)

/-- Nothing follows. -/
def abort {α : Type} (why : Abort) : Handler Conn α := .call (.abort why) nofun

/-- `std::string(res_row[i])`: a C string ends at its first `NUL`. -/
def cString (field : Bytes) : Bytes := field.takeWhile (· ≠ 0)

/-- The `query_str` of `getQueryRes`. -/
def selectQuery (username : Bytes) : Bytes :=
  ascii "select * from userdata WHERE username='" ++ username ++ ascii "';"

/-- The `query_str` of `insertNewUser`. -/
def insertQuery (username userpasswd : Bytes) : Bytes :=
  ascii "INSERT INTO userdata (username,password) VALUES ('" ++ username ++ ascii "','" ++
    userpasswd ++ ascii "')"

/-- The copy of the row: `res[i] = std::string(res_row[i])`. -/
def readRow (fields : List (Option Bytes)) : Handler Conn (List Bytes) :=
  match fields.mapM id with
  | some fields => pure (fields.map cString)
  | none => abort .nullString

/-- The row `[id, name, passwd]`, or nothing: no such row, no connection, or no answer. -/
def getQueryRes (username : Bytes) : Handler Conn (List Bytes) := do
  match ← getConnection with
  | none => return []
  | some sqlconn =>
    match ← realQuery sqlconn (selectQuery username) with
    | .error =>
      releaseConnection sqlconn
      return []
    | .noResult => abort .nullResult
    | .noRow =>
      releaseConnection sqlconn
      return []
    | .row fields =>
      let res ← readRow fields
      releaseConnection sqlconn
      return res

/-- `insertNewUser(username, userpasswd)`. -/
def insertNewUser (username userpasswd : Bytes) : Handler Conn Bool := do
  let preQuery ← getQueryRes username
  if preQuery.length > 0 then return false
  match ← getConnection with
  | none => return false
  | some sqlconn =>
    match ← realQuery sqlconn (insertQuery username userpasswd) with
    | .error =>
      releaseConnection sqlconn
      return false
    | _ =>
      releaseConnection sqlconn
      return true

end

/-! ## The queries -/

theorem selectQuery_injective : Function.Injective selectQuery := by
  intro u v h
  unfold selectQuery at h
  rw [List.append_assoc, List.append_assoc] at h
  exact List.append_cancel_right (List.append_cancel_left h)

/-- The two statements begin with different letters. -/
theorem selectQuery_ne_insertQuery (u v p : Bytes) : selectQuery u ≠ insertQuery v p := by
  intro h
  have hs : (selectQuery u).head? = some 115 := rfl
  have hi : (insertQuery v p).head? = some 73 := rfl
  rw [h, hi] at hs
  exact absurd hs (by decide)

end SimpleHttpServer
