import SimpleHttpServer.App.LoginForm
import SimpleHttpServer.Http.HttpResponse

/-!
# `onRequest` of the example server

`example/test.cpp`: the callback that routes a request. It reads files and the database by the calls
of `ExternalCall`, and gives back the response it was given, filled in. A file name goes to `stat`
and `open` as a C string.

`loginReply` and `registerReply` are the two form routes behind the split of the form; `onRequest`
is them, a file, a 404, or nothing at all (`onRequest_otherPost`).
-/

namespace SimpleHttpServer

open Lib

/-- One of `[0-9a-zA-Z_]`. -/
def isWordChar (c : UInt8) : Bool :=
  isdigit c || (97 ≤ c && c ≤ 122) || (65 ≤ c && c ≤ 90) || c == 95

/-- `std::regex_match` with `^[0-9a-zA-Z_]{5,16}$`. -/
def validateString (s : Bytes) : Bool :=
  decide (5 ≤ s.length) && decide (s.length ≤ 16) && s.all isWordChar

/-- A valid value has only word characters. -/
theorem not_mem_of_validate {s : Bytes} (h : validateString s = true) {c : UInt8}
    (hc : isWordChar c = false) : c ∉ s := by
  intro hmem
  unfold validateString at h
  rw [Bool.and_eq_true, List.all_eq_true] at h
  exact nomatch hc.symm.trans (h.2 c hmem)

section

variable {Conn : Type}

/-- A computation that may throw, or have no defined behaviour. -/
def orAbort {α : Type} : Except Abort α → Handler Conn α
  | .ok a => pure a
  | .error why => abort why

/-- The three lines of a 404. -/
def notFound (resp : HttpResponse) : HttpResponse :=
  ((resp.setStatusCode .k404NotFound).setStatusMessage (ascii "Not Found")).setCloseConnection true

/-- `fileToString(filename, resp)`; without a mapping the body is read through `MAP_FAILED`. -/
def fileToString (filename : Bytes) (resp : HttpResponse) : Handler Conn HttpResponse := do
  let filename := cString filename
  match ← .perform (ExternalCall.stat filename) with
  | none =>
    return notFound resp
  | some size =>
    let resp := (resp.setStatusCode .k200Ok).setStatusMessage (ascii "OK")
    match ← .perform (ExternalCall.mmap filename size) with
    | some mapFile => return resp.setBody mapFile
    | none => if size = 0 then return resp.setBody [] else abort .badMapping

/-- The condition of a login: `query_res` is `[id, name, passwd]`. -/
def loginSucceeds (username userpasswd : Bytes) (queryRes : List Bytes) : Except Abort Bool :=
  if validateString username && validateString userpasswd && decide (queryRes.length > 0) then
    match queryRes[1]? with
    | none => .error .overrun
    | some name =>
      if username = name then
        match queryRes[2]? with
        | none => .error .overrun
        | some passwd => .ok (userpasswd = passwd)
      else .ok false
  else .ok false

/-- `onRequest(req, resp)`. -/
def onRequest (req : HttpRequest) (resp : HttpResponse) : Handler Conn HttpResponse := do
  if req.method = .kGet then
    let filename := req.path
    if filename = ascii "/" then
      fileToString (ascii "../root/login.html") resp
    -- `filename.find('.') == std::string::npos`
    else if 46 ∉ filename then
      fileToString (ascii "../root" ++ filename ++ ascii ".html") resp
    else
      fileToString (ascii "../root" ++ filename) resp
  else if req.method = .kPost then
    if req.path = ascii "/login" then
      match ← orAbort (splitForm req.body) with
      | none => fileToString (ascii "../root/loginfail.html") resp
      | some (username, userpasswd) =>
        let queryRes ← getQueryRes username
        if ← orAbort (loginSucceeds username userpasswd queryRes) then
          fileToString (ascii "../root/index.html") resp
        else
          fileToString (ascii "../root/loginfail.html") resp
    else if req.path = ascii "/register" then
      match ← orAbort (splitForm req.body) with
      | none => fileToString (ascii "../root/loginfailuser404.html") resp
      | some (username, userpasswd) =>
        if validateString username && validateString userpasswd then
          if ← insertNewUser username userpasswd then
            fileToString (ascii "../root/registersucceed.html") resp
          else
            fileToString (ascii "../root/registerfail.html") resp
        else
          fileToString (ascii "../root/registerfail.html") resp
    else
      return resp
  else
    return notFound resp

/-! ## The routes -/

/-- What a login does with its form. -/
def loginReply (resp : HttpResponse) : Option (Bytes × Bytes) → Handler Conn HttpResponse
  | none => fileToString (ascii "../root/loginfail.html") resp
  | some (username, userpasswd) => do
    let queryRes ← getQueryRes username
    if ← orAbort (loginSucceeds username userpasswd queryRes) then
      fileToString (ascii "../root/index.html") resp
    else
      fileToString (ascii "../root/loginfail.html") resp

/-- What a registration does with its form. -/
def registerReply (resp : HttpResponse) : Option (Bytes × Bytes) → Handler Conn HttpResponse
  | none => fileToString (ascii "../root/loginfailuser404.html") resp
  | some (username, userpasswd) =>
    if validateString username && validateString userpasswd then do
      if ← insertNewUser username userpasswd then
        fileToString (ascii "../root/registersucceed.html") resp
      else
        fileToString (ascii "../root/registerfail.html") resp
    else
      fileToString (ascii "../root/registerfail.html") resp

variable {req : HttpRequest} {resp : HttpResponse}

theorem onRequest_login (hpost : req.method = .kPost) (hpath : req.path = ascii "/login") :
    (onRequest req resp : Handler Conn HttpResponse) =
      orAbort (splitForm req.body) >>= loginReply resp := by
  have hget : ¬ req.method = .kGet := by
    rw [hpost]
    exact nofun
  unfold onRequest
  rw [if_neg hget, if_pos hpost, if_pos hpath]
  rfl

theorem onRequest_register (hpost : req.method = .kPost) (hpath : req.path = ascii "/register") :
    (onRequest req resp : Handler Conn HttpResponse) =
      orAbort (splitForm req.body) >>= registerReply resp := by
  have hget : ¬ req.method = .kGet := by
    rw [hpost]
    exact nofun
  have hlogin : ¬ req.path = ascii "/login" := by
    rw [hpath]
    decide
  unfold onRequest
  rw [if_neg hget, if_pos hpost, if_neg hlogin, if_pos hpath]
  rfl

/-- A POST to any other path is answered with the response as it was given. -/
theorem onRequest_otherPost (hpost : req.method = .kPost) (hlogin : req.path ≠ ascii "/login")
    (hregister : req.path ≠ ascii "/register") :
    (onRequest req resp : Handler Conn HttpResponse) = pure resp := by
  have hget : ¬ req.method = .kGet := by
    rw [hpost]
    exact nofun
  unfold onRequest
  rw [if_neg hget, if_pos hpost, if_neg hlogin, if_neg hregister]

theorem onRequest_notFound (hget : req.method ≠ .kGet) (hpost : req.method ≠ .kPost) :
    (onRequest req resp : Handler Conn HttpResponse) = pure (notFound resp) := by
  unfold onRequest
  rw [if_neg hget, if_neg hpost]

theorem orAbort_ok {α β : Type} {x : Except Abort α} {a : α} (h : x = .ok a)
    (f : α → Handler Conn β) : (orAbort x >>= f) = f a := by
  rw [h]
  rfl

end

end SimpleHttpServer
