import SimpleHttpServer.App.OnRequest

/-!
# Runs of the handlers

What a run of each function that `onRequest` (`example/test.cpp`) calls looks like: its calls with
their answers, and what it returns, if it returns.

`stat` answers for directories as well, and `open` and `mmap` may fail on any file; `mmap` does on a
directory and on an empty file. `fileToString` has set the status by then, and reads the mapping
whether there is one or not.

* `QueryRun` and `FileRun` are all the runs of `getQueryRes` and of `fileToString`;
* `insertNewUser_ends`: the check of `insertNewUser` is a run of `getQueryRes`, and nothing goes
  wrong behind it;
* `FileAnswers fs` are the answers that files allow, and the database is free.

Files do not change between two calls of one run.
-/

namespace SimpleHttpServer

open Lib Lib.Program

section

variable {Conn : Type}

/-- A call with its answer. -/
abbrev HandlerEvent (Conn : Type) := Sigma (@ExternalCall.Answer Conn)

instance : Nonempty (ExternalCall.getConnection : ExternalCall Conn).Answer :=
  ⟨(none : Option Conn)⟩

instance (sqlconn : Conn) (query : Bytes) :
    Nonempty (ExternalCall.realQuery sqlconn query).Answer := ⟨QueryAnswer.error⟩

instance (sqlconn : Conn) : Nonempty (ExternalCall.releaseConnection sqlconn).Answer := ⟨()⟩

instance (filename : Bytes) : Nonempty (ExternalCall.stat filename : ExternalCall Conn).Answer :=
  ⟨(none : Option Nat)⟩

instance (filename : Bytes) (size : Nat) :
    Nonempty (ExternalCall.mmap filename size : ExternalCall Conn).Answer :=
  ⟨(none : Option Bytes)⟩

variable {R : ∀ op : ExternalCall Conn, op.Answer → Prop} {events : List (HandlerEvent Conn)}

theorem ends_abort {α : Type} {why : Abort} {result : Option α} :
    (abort why : Handler Conn α).Ends R events result ↔ events = [] ∧ result = none :=
  ends_stuck ⟨nofun⟩

/-- A computation that may throw, and what follows. -/
theorem ends_orAbort {α β : Type} {x : Except Abort α} {f : α → Handler Conn β}
    {result : Option β} : (orAbort x >>= f).Ends R events result ↔
      (∃ a, x = .ok a ∧ (f a).Ends R events result) ∨
        (∃ why, x = .error why) ∧ events = [] ∧ result = none := by
  cases x with
  | ok a =>
    have h : (orAbort (.ok a) >>= f) = f a := rfl
    simp [h]
  | error why =>
    have hempty : IsEmpty (ExternalCall.abort why : ExternalCall Conn).Answer := ⟨nofun⟩
    have h : (orAbort (.error why) >>= f) = abort why :=
      congrArg (Program.call _) (funext hempty.elim)
    rw [h, ends_abort]
    simp

/-! ## `getQueryRes` -/

/-- The runs of `getQueryRes(username)`. -/
inductive QueryRun (username : Bytes) : List (HandlerEvent Conn) → Option (List Bytes) → Prop
  | noConnection : QueryRun username [⟨.getConnection, (none : Option Conn)⟩] (some [])
  | error (sqlconn : Conn) : QueryRun username
      [⟨.getConnection, some sqlconn⟩,
        ⟨.realQuery sqlconn (selectQuery username), QueryAnswer.error⟩,
        ⟨.releaseConnection sqlconn, ()⟩] (some [])
  | noResult (sqlconn : Conn) : QueryRun username
      [⟨.getConnection, some sqlconn⟩,
        ⟨.realQuery sqlconn (selectQuery username), QueryAnswer.noResult⟩] none
  | noRow (sqlconn : Conn) : QueryRun username
      [⟨.getConnection, some sqlconn⟩,
        ⟨.realQuery sqlconn (selectQuery username), QueryAnswer.noRow⟩,
        ⟨.releaseConnection sqlconn, ()⟩] (some [])
  | row (sqlconn : Conn) {fields : List (Option Bytes)} {values : List Bytes}
      (h : fields.mapM id = some values) : QueryRun username
      [⟨.getConnection, some sqlconn⟩,
        ⟨.realQuery sqlconn (selectQuery username), QueryAnswer.row fields⟩,
        ⟨.releaseConnection sqlconn, ()⟩] (some (values.map cString))
  | nullField (sqlconn : Conn) {fields : List (Option Bytes)} (h : fields.mapM id = none) :
      QueryRun username
      [⟨.getConnection, some sqlconn⟩,
        ⟨.realQuery sqlconn (selectQuery username), QueryAnswer.row fields⟩] none

theorem ends_release {α : Type} {sqlconn : Conn} {a : α} {result : Option α}
    (h : (releaseConnection sqlconn >>= fun _ => (pure a : Handler Conn α)).Ends R events result) :
    events = [⟨.releaseConnection sqlconn, ()⟩] ∧ result = some a := by
  obtain ⟨-, rest, rfl, -, rfl, rfl⟩ := ends_perform.mp h
  exact ⟨rfl, rfl⟩

theorem queryRun_of_ends {username : Bytes} {result : Option (List Bytes)}
    (h : (getQueryRes username : Handler Conn (List Bytes)).Ends R events result) :
    QueryRun username events result := by
  obtain ⟨sqlconn, rest, rfl, -, h⟩ := ends_perform.mp h
  cases sqlconn with
  | none =>
    obtain ⟨rfl, rfl⟩ := h
    exact .noConnection
  | some sqlconn =>
    obtain ⟨answer, rest, rfl, -, h⟩ := ends_perform.mp h
    cases answer with
    | error =>
      obtain ⟨rfl, rfl⟩ := ends_release h
      exact .error sqlconn
    | noResult =>
      obtain ⟨rfl, rfl⟩ := ends_abort.mp h
      exact .noResult sqlconn
    | noRow =>
      obtain ⟨rfl, rfl⟩ := ends_release h
      exact .noRow sqlconn
    | row fields =>
      have hread : (readRow fields >>= fun res => releaseConnection sqlconn >>= fun _ =>
          (pure res : Handler Conn (List Bytes))).Ends R rest result := h
      unfold readRow at hread
      cases hvalues : fields.mapM id with
      | some values =>
        rw [hvalues] at hread
        obtain ⟨rfl, rfl⟩ := ends_release hread
        exact .row sqlconn hvalues
      | none =>
        rw [hvalues] at hread
        rcases ends_bind_iff.mp hread with ⟨before, rest, a, rfl, habort, -⟩ | ⟨rfl, habort⟩
        · exact absurd (ends_abort.mp habort).2 (Option.some_ne_none a)
        · obtain ⟨rfl, -⟩ := ends_abort.mp habort
          exact .nullField sqlconn hvalues

/-! ## `insertNewUser` -/

/-- A call that reads no row and no file. -/
def Plain (e : HandlerEvent Conn) : Prop :=
  match e.1 with
  | .realQuery _ query => ∀ username, query ≠ selectQuery username
  | .stat _ | .mmap _ _ => False
  | _ => True

/-- **The check of `insertNewUser` is a run of `getQueryRes`**, and nothing goes wrong behind it. -/
theorem insertNewUser_ends {username userpasswd : Bytes} {result : Option Bool}
    (h : (insertNewUser username userpasswd : Handler Conn Bool).Ends R events result) :
    ∃ before rest preQuery, events = before ++ rest ∧ QueryRun username before preQuery ∧
      (∀ e ∈ rest, Plain e) ∧ (result = none ↔ preQuery = none) := by
  rcases ends_bind_iff.mp h with ⟨before, rest, preQuery, rfl, hquery, h⟩ | ⟨rfl, hquery⟩
  · refine ⟨before, rest, some preQuery, rfl, queryRun_of_ends hquery, ?_⟩
    by_cases hfound : preQuery.length > 0
    · rw [if_pos hfound] at h
      obtain ⟨rfl, rfl⟩ := ends_pure.mp h
      simp
    · rw [if_neg hfound] at h
      obtain ⟨sqlconn, rest, rfl, -, h⟩ := ends_perform.mp h
      cases sqlconn with
      | none =>
        obtain ⟨rfl, rfl⟩ := h
        simp [Plain]
      | some sqlconn =>
        obtain ⟨answer, rest, rfl, -, h⟩ := ends_perform.mp h
        have hinsert : ∀ u, insertQuery username userpasswd ≠ selectQuery u := fun u heq =>
          selectQuery_ne_insertQuery u username userpasswd heq.symm
        obtain ⟨ok, rfl, rfl⟩ : ∃ ok, rest = [⟨.releaseConnection sqlconn, ()⟩] ∧
            result = some ok := by
          cases answer <;> exact ⟨_, ends_release h⟩
        simp [Plain, hinsert]
  · exact ⟨events, [], none, (List.append_nil _).symm, queryRun_of_ends hquery, nofun,
      iff_of_true rfl rfl⟩

/-! ## `fileToString` -/

/-- What a file name stands for. -/
inductive File where
  | absent
  | regular (contents : Bytes)
  | directory (size : Nat)

/-- `st_size`, if `stat` succeeds. -/
def File.size : File → Option Nat
  | .absent => none
  | .regular contents => some contents.length
  | .directory size => some size

theorem File.size_eq_none {file : File} (h : file.size = none) : file = .absent := by
  cases file with
  | absent => rfl
  | regular contents => exact nomatch h
  | directory size => exact nomatch h

/-- The files, by name. -/
abbrev FileSystem := Bytes → File

/-- The answers that the files allow: a mapping is one of a regular file, and not empty. -/
def FileAnswers (fs : FileSystem) : ∀ op : ExternalCall Conn, op.Answer → Prop
  | .stat filename, (size : Option Nat) => size = (fs filename).size
  | .mmap filename size, (mapFile : Option Bytes) => ∀ bytes, mapFile = some bytes →
      0 < size ∧ ∃ contents, fs filename = .regular contents ∧ bytes = contents.take size
  | _, _ => True

/-- `open` or `mmap` fails. -/
def Unmapped : HandlerEvent Conn → Prop
  | ⟨.mmap _ _, (mapFile : Option Bytes)⟩ => mapFile = none
  | _ => False

theorem QueryRun.mapped {username : Bytes} {values : Option (List Bytes)}
    (h : QueryRun username events values) : ∀ e ∈ events, ¬ Unmapped e := by
  refine List.forall_iff_forall_mem.mp ?_
  cases h with
  | noConnection => exact id
  | noResult sqlconn => exact ⟨id, id⟩
  | nullField sqlconn h => exact ⟨id, id⟩
  | _ => exact ⟨id, id, id⟩

theorem Plain.mapped {e : HandlerEvent Conn} (h : Plain e) : ¬ Unmapped e := by
  obtain ⟨op, answer⟩ := e
  cases op with
  | mmap filename size => exact False.elim h
  | _ => exact id

theorem insertNewUser_mapped {username userpasswd : Bytes} {result : Option Bool}
    (h : (insertNewUser username userpasswd : Handler Conn Bool).Ends R events result) :
    ∀ e ∈ events, ¬ Unmapped e := by
  obtain ⟨before, rest, values, rfl, hrun, hplain, -⟩ := insertNewUser_ends h
  exact List.forall_mem_append.mpr ⟨hrun.mapped, fun e he => (hplain e he).mapped⟩

/-- The response of a file that was found. -/
def found (resp : HttpResponse) : HttpResponse :=
  (resp.setStatusCode .k200Ok).setStatusMessage (ascii "OK")

/-- The runs of `fileToString(filename, resp)`, where `filename` is a C string. -/
inductive FileRun (filename : Bytes) (resp : HttpResponse) :
    List (HandlerEvent Conn) → Option HttpResponse → Prop
  | absent : FileRun filename resp [⟨.stat filename, (none : Option Nat)⟩] (some (notFound resp))
  | mapped (size : Nat) (mapFile : Bytes) : FileRun filename resp
      [⟨.stat filename, some size⟩, ⟨.mmap filename size, some mapFile⟩]
      (some ((found resp).setBody mapFile))
  /-- The body is the empty range at `MAP_FAILED`. -/
  | unmappedEmpty : FileRun filename resp
      [⟨.stat filename, some 0⟩, ⟨.mmap filename 0, (none : Option Bytes)⟩]
      (some ((found resp).setBody []))
  | unmapped {size : Nat} (h : size ≠ 0) : FileRun filename resp
      [⟨.stat filename, some size⟩, ⟨.mmap filename size, (none : Option Bytes)⟩] none

theorem fileRun_of_ends {filename : Bytes} {resp : HttpResponse} {result : Option HttpResponse}
    (h : (fileToString filename resp : Handler Conn HttpResponse).Ends R events result) :
    FileRun (cString filename) resp events result := by
  obtain ⟨size, rest, rfl, -, h⟩ := ends_perform.mp h
  cases size with
  | none =>
    obtain ⟨rfl, rfl⟩ := h
    exact .absent
  | some size =>
    obtain ⟨mapFile, rest, rfl, -, h⟩ := ends_perform.mp h
    cases mapFile with
    | some mapFile =>
      obtain ⟨rfl, rfl⟩ := h
      exact .mapped size mapFile
    | none =>
      have hbody : (if size = 0 then pure ((found resp).setBody []) else abort .badMapping :
          Handler Conn HttpResponse).Ends R rest result := h
      by_cases hsize : size = 0
      · subst hsize
        rw [if_pos rfl] at hbody
        obtain ⟨rfl, rfl⟩ := ends_pure.mp hbody
        exact .unmappedEmpty
      · rw [if_neg hsize] at hbody
        obtain ⟨rfl, rfl⟩ := ends_abort.mp hbody
        exact .unmapped hsize

theorem ends_absent {filename : Bytes} {resp : HttpResponse}
    (hstat : R (.stat (cString filename)) (none : Option Nat)) :
    (fileToString filename resp : Handler Conn HttpResponse).Ends R
      [⟨.stat (cString filename), (none : Option Nat)⟩] (some (notFound resp)) :=
  ends_perform.mpr ⟨none, [], rfl, hstat, rfl, rfl⟩

theorem ends_mapped {filename mapFile : Bytes} {size : Nat} {resp : HttpResponse}
    (hstat : R (.stat (cString filename)) (some size))
    (hmmap : R (.mmap (cString filename) size) (some mapFile)) :
    (fileToString filename resp : Handler Conn HttpResponse).Ends R
      [⟨.stat (cString filename), some size⟩, ⟨.mmap (cString filename) size, some mapFile⟩]
      (some ((found resp).setBody mapFile)) := by
  refine ends_perform.mpr ⟨some size, _, rfl, hstat, ?_⟩
  exact ends_perform.mpr ⟨some mapFile, [], rfl, hmmap, rfl, rfl⟩

end

end SimpleHttpServer
