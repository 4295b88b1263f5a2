import SimpleHttpServer.App.OnRequest
import SimpleHttpServer.Http.RequestLine
import SimpleHttpServer.Lib.Path

/-!
# What a GET can read

`onRequest` puts `../root` in front of the path of a GET and hands the name to `fileToString`. It
does not look at the segments of the path, so `..` leads out of the web root.

* `fileNameOf` is the name, `FileInside` says that a file used lies inside `../root`;
* `StaysInside` is a condition on the path of the request: its segments are counted, names against
  `..`, from the first slash on;
* **`fileInside_iff`**: every file that the handler can use lies inside `../root` if and only if the
  path meets the condition;
* `traversal_example`: an accepted request for a file two levels up.
-/

namespace SimpleHttpServer

open Lib Lib.Search Lib.Path

/-! ## File names as paths -/

/-- The step of a segment of a file name. -/
def stepOf (segment : Bytes) : Step Bytes :=
  if segment = [] ∨ segment = ascii "." then .stay
  else if segment = ascii ".." then .up
  else .down segment

/-- The steps of a relative file name. -/
def stepsOf (filename : Bytes) : List (Step Bytes) := (filename.splitOn 47).map stepOf

/-- Where a file name leads, from the working directory. -/
def locate (filename : Bytes) : Pos Bytes := walk ⟨0, []⟩ (stepsOf filename)

/-- The file lies inside `../root`. -/
def InsideRoot (filename : Bytes) : Prop := Below (locate (ascii "../root")) (locate filename)

instance (filename : Bytes) : Decidable (InsideRoot filename) :=
  inferInstanceAs (Decidable (Below _ _))

/-- Every file a call names lies inside `../root`. -/
def FileInside {Conn : Type} : ExternalCall Conn → Prop
  | .stat filename => InsideRoot filename
  | .mmap filename _ => InsideRoot filename
  | _ => True

/-! ## The name of a GET -/

/-- What the name of a GET has behind `../`. -/
def servedName (path : Bytes) : Bytes :=
  if path = ascii "/" then ascii "root/login.html"
  else if 46 ∉ path then ascii "root" ++ path ++ ascii ".html"
  else ascii "root" ++ path

/-- The name `onRequest` passes to `fileToString`. -/
def fileNameOf (path : Bytes) : Bytes := ascii "../" ++ servedName path

section

variable {Conn : Type}

theorem onRequest_get (req : HttpRequest) (resp : HttpResponse) (h : req.method = .kGet) :
    (onRequest req resp : Handler Conn HttpResponse) =
      fileToString (fileNameOf req.path) resp := by
  unfold onRequest fileNameOf servedName
  rw [if_pos h]
  by_cases hslash : req.path = ascii "/"
  · rw [if_pos hslash, if_pos hslash]
    rfl
  · rw [if_neg hslash, if_neg hslash]
    by_cases hdot : 46 ∉ req.path
    · rw [if_pos hdot, if_pos hdot, ← List.append_assoc, ← List.append_assoc]
      rfl
    · rw [if_neg hdot, if_neg hdot, ← List.append_assoc]
      rfl

/-- `fileToString` names one file, as a C string. -/
theorem fileToString_inside_iff (filename : Bytes) (resp : HttpResponse) :
    (fileToString filename resp : Handler Conn HttpResponse).Uses FileInside ↔
      InsideRoot (cString filename) := by
  constructor
  · intro h
    exact h.1
  · intro h
    refine ⟨h, fun size => ?_⟩
    cases size with
    | none => trivial
    | some size =>
      refine ⟨h, fun mapFile => ?_⟩
      cases mapFile with
      | some mapFile => trivial
      | none =>
        refine Program.Uses.ite (fun _ => trivial) fun _ => ?_
        exact ⟨trivial, nofun⟩

theorem cString_fileNameOf (path : Bytes) :
    cString (fileNameOf path) = ascii "../" ++ cString (servedName path) := by
  rw [cString, fileNameOf, List.takeWhile_append_of_pos (by decide +kernel)]
  rfl

theorem stepsOf_dotdot (name : Bytes) :
    stepsOf (ascii "../" ++ name) = .up :: stepsOf name := by
  have hsplit : (ascii ".." ++ 47 :: name).splitOn 47 = ascii ".." :: name.splitOn 47 :=
    List.splitOn_append_cons_self_of_not_mem (by decide) name
  have hname : ascii "../" ++ name = ascii ".." ++ 47 :: name := rfl
  rw [hname, stepsOf, hsplit, List.map_cons]
  rfl

/-! ## The path of the request -/

/-- The steps of a path from its first slash on. -/
def behind (path : Bytes) : List (Step Bytes) := (path.splitOn 47).tail.map stepOf

/-- The path does not leave the web root: it starts with a slash (or with the end of the string),
and in none of its beginnings there are more `..` than names; or there is one more, never two, in
front of a segment `root`, and none more behind that. What stands in front of the first slash is a
part of the name that starts with `root`, so it does not count. -/
def StaysInside (path : Bytes) : Prop :=
  (path.head? = some 47 ∨ path.head? = some 0) ∧ Stays (behind (cString path)) ∨
    ComesBack (ascii "root") (behind (cString path))

/-- A segment stands in the path. -/
theorem infix_of_mem_splitOn {segment : Bytes} : ∀ {path : Bytes}, segment ∈ path.splitOn 47 →
    segment <:+: path
  | path, h => by
    by_cases hslash : 47 ∈ path
    · obtain ⟨first, rest, heq, hfirst⟩ := List.eq_append_cons_of_mem hslash
      have hshorter : rest.length < path.length := by
        rw [heq, List.length_append, List.length_cons]
        omega
      rw [heq, List.splitOn_append_cons_self_of_not_mem hfirst] at h
      rw [heq]
      rcases List.mem_cons.mp h with rfl | h
      · exact (List.prefix_append _ _).isInfix
      · have hrest : rest <:+: first ++ 47 :: rest := ⟨first ++ [47], [], by simp⟩
        exact (infix_of_mem_splitOn h).trans hrest
    · rw [List.splitOn_eq_singleton hslash, List.mem_singleton] at h
      rw [h]
  termination_by path => path.length

/-- A path with one dot has no `..`. -/
theorem not_up_behind {path : Bytes} (h : path.count 46 ≤ 1) : .up ∉ behind path := by
  intro hup
  obtain ⟨segment, hmem, hstep⟩ := List.mem_map.mp hup
  have hdots : segment = ascii ".." := by
    unfold stepOf at hstep
    split at hstep
    · cases hstep
    · split at hstep
      · rename_i heq
        exact heq
      · cases hstep
  have hle := (infix_of_mem_splitOn (List.mem_of_mem_tail hmem)).sublist.count_le 46
  have htwo : (ascii "..").count 46 = 2 := by decide
  rw [hdots, htwo] at hle
  omega

/-- The first segment of the name starts with `root`, and the others are those of the path. -/
theorem stepsOf_root (path : Bytes) : stepsOf (ascii "root" ++ path) =
    .down (ascii "root" ++ path.takeWhile (· ≠ 47)) :: behind path := by
  have hdown : ∀ name, stepOf (ascii "root" ++ name) = .down (ascii "root" ++ name) := by
    intro name
    have hroot : ascii "root" ++ name = 114 :: (ascii "oot" ++ name) := rfl
    have hdot : ascii "." = [46] := rfl
    have hdots : ascii ".." = [46, 46] := rfl
    unfold stepOf
    rw [hroot, hdot, hdots, if_neg (by simp), if_neg (by simp)]
  unfold stepsOf behind
  by_cases hslash : 47 ∈ path
  · obtain ⟨first, rest, rfl, hfirst⟩ := List.eq_append_cons_of_mem hslash
    have htake : (first ++ 47 :: rest).takeWhile (· ≠ 47) = first := by
      have hall : ∀ b ∈ first, decide (b ≠ 47) = true := fun b hb =>
        decide_eq_true fun heq : b = 47 => hfirst (heq ▸ hb)
      rw [List.takeWhile_append_of_pos hall]
      simp
    have hnot : 47 ∉ ascii "root" ++ first := by
      rw [List.mem_append, not_or]
      exact ⟨by decide, hfirst⟩
    rw [htake, ← List.append_assoc, List.splitOn_append_cons_self_of_not_mem hnot,
      List.splitOn_append_cons_self_of_not_mem hfirst, List.map_cons, hdown]
    rfl
  · have htake : path.takeWhile (· ≠ 47) = path :=
      List.takeWhile_eq_self_iff.mpr fun b hb =>
        decide_eq_true fun heq : b = 47 => hslash (heq ▸ hb)
    have hnot : 47 ∉ ascii "root" ++ path := by
      rw [List.mem_append, not_or]
      exact ⟨by decide, hslash⟩
    rw [htake, List.splitOn_eq_singleton hnot, List.splitOn_eq_singleton hslash, List.map_singleton,
      hdown]
    rfl

theorem enters_root_iff (path : Bytes) : Enters (ascii "root") (stepsOf (ascii "root" ++ path)) ↔
    path.takeWhile (· ≠ 47) = [] ∧ Stays (behind path) ∨
      ComesBack (ascii "root") (behind path) := by
  rw [stepsOf_root, enters_down_iff, List.append_right_eq_self]

/-- Nothing stands in front of the first slash. -/
theorem takeWhile_cString_eq_nil_iff {path : Bytes} (hne : path ≠ []) :
    (cString path).takeWhile (· ≠ 47) = [] ↔ path.head? = some 47 ∨ path.head? = some 0 := by
  obtain ⟨b, rest, rfl⟩ := List.exists_cons_of_ne_nil hne
  unfold cString
  by_cases hzero : b = 0
  · simp [hzero]
  · by_cases hslash : b = 47
    · simp [hslash]
    · simp [hzero, hslash]

theorem cString_append_of_mem {path : Bytes} (h : 0 ∈ path) (rest : Bytes) :
    cString (path ++ rest) = cString path := by
  obtain ⟨first, last, rfl, hfirst⟩ := List.eq_append_cons_of_mem h
  have hall : ∀ b ∈ first, decide (b ≠ 0) = true := fun b hb =>
    decide_eq_true fun heq : b = 0 => hfirst (heq ▸ hb)
  have hcut : ∀ l, cString (first ++ 0 :: l) = first := fun l => by
    rw [cString, List.takeWhile_append_of_pos hall]
    simp
  rw [List.append_assoc, List.cons_append, hcut, hcut]

theorem cString_of_not_mem {path : Bytes} (h : 0 ∉ path) : cString path = path :=
  List.takeWhile_eq_self_iff.mpr fun b hb => decide_eq_true fun heq : b = 0 => h (heq ▸ hb)

theorem cString_root (name : Bytes) :
    cString (ascii "root" ++ name) = ascii "root" ++ cString name :=
  List.takeWhile_append_of_pos (by decide +kernel)

/-- Where nothing climbs only the beginning of the path counts. -/
theorem stays_iff_of_not_up {path : Bytes} (hdots : path.count 46 ≤ 1) {start : Prop} :
    start ∧ Stays (behind path) ∨ ComesBack (ascii "root") (behind path) ↔ start := by
  have hup := not_up_behind hdots
  rw [or_iff_left (not_comesBack_of_not_up hup), and_iff_left (stays_of_not_up hup)]

/-- The name of a GET enters `root` and stays there if its path says so. -/
theorem enters_servedName_iff (path : Bytes) :
    Enters (ascii "root") (stepsOf (cString (servedName path))) ↔ StaysInside path := by
  -- the name is cut where the path is, or has nothing behind it
  have hcut : ∀ name, name ≠ [] → cString name = cString path → name.head? = path.head? →
      (Enters (ascii "root") (stepsOf (cString (ascii "root" ++ name))) ↔ StaysInside path) := by
    intro name hne hsame hhead
    rw [cString_root, enters_root_iff, takeWhile_cString_eq_nil_iff hne, hhead, hsame]
    rfl
  unfold servedName
  by_cases hslash : path = ascii "/"
  · rw [if_pos hslash, hslash]
    refine iff_of_true ?_ (.inl ⟨.inl rfl, by decide⟩)
    have hlogin : cString (ascii "root/login.html") = ascii "root" ++ ascii "/login.html" := by
      decide +kernel
    rw [hlogin, enters_root_iff]
    exact .inl ⟨by decide, by decide⟩
  rw [if_neg hslash]
  by_cases hdot : 46 ∉ path
  · rw [if_pos hdot, List.append_assoc]
    have hhtml : (ascii ".html").count 46 = 1 := by decide
    have hnone : path.count 46 = 0 := List.count_eq_zero.mpr hdot
    by_cases hzero : 0 ∈ path
    · obtain ⟨b, rest, rfl⟩ := List.exists_cons_of_ne_nil (List.ne_nil_of_mem hzero)
      exact hcut _ (List.cons_ne_nil _ _) (cString_append_of_mem hzero _) rfl
    · -- no segment climbs, with `.html` or without
      have hzero' : 0 ∉ path ++ ascii ".html" := by
        rw [List.mem_append, not_or]
        exact ⟨hzero, by decide⟩
      have hone : (path ++ ascii ".html").count 46 ≤ 1 := by
        rw [List.count_append, hnone, hhtml]
      have hne : path ++ ascii ".html" ≠ [] := List.append_ne_nil_of_right_ne_nil _ (by decide)
      have hcstring := cString_of_not_mem hzero'
      have hstart := takeWhile_cString_eq_nil_iff hne
      rw [hcstring] at hstart
      rw [cString_root, hcstring, enters_root_iff, stays_iff_of_not_up hone, hstart]
      unfold StaysInside
      rw [cString_of_not_mem hzero, stays_iff_of_not_up (by omega)]
      cases path with
      | nil => decide
      | cons b rest => rfl
  · rw [if_neg hdot]
    exact hcut path (by rintro rfl; exact hdot List.not_mem_nil) rfl rfl

/-- **Which requests stay in the web root.** Every file that a GET uses lies inside `../root` if and
only if its path does not climb out of it, or climbs out by one level and comes back. -/
theorem fileInside_iff (req : HttpRequest) (resp : HttpResponse) (h : req.method = .kGet) :
    (onRequest req resp : Handler Conn HttpResponse).Uses FileInside ↔ StaysInside req.path := by
  have hroot : locate (ascii "../root") = ⟨1, [ascii "root"]⟩ := by decide +kernel
  rw [onRequest_get req resp h, fileToString_inside_iff, cString_fileNameOf, InsideRoot, hroot,
    locate, stepsOf_dotdot, ← enters_servedName_iff]
  exact below_walk_iff

/-- A path that goes down and up again on its way. -/
theorem fileInside_iff_example :
    (onRequest { method := .kGet, path := ascii "/css/../index.html" }
      { closeConnection := false } : Handler Nat HttpResponse).Uses FileInside :=
  (fileInside_iff { method := .kGet, path := ascii "/css/../index.html" } _ rfl).mpr
    (.inl ⟨.inl (by decide), by decide +kernel⟩)

/-- A path that leaves `root` and comes back, and one that names another directory first. -/
example : StaysInside (ascii "/../root/a.txt") ∧ StaysInside (ascii "x/../root/a.txt") := by
  have hback : ComesBack (ascii "root")
      [.up, .down (ascii "root"), .down (ascii "a.txt")] :=
    ⟨[.up], [.down (ascii "a.txt")], rfl, rfl, fun b hb => by
      rcases List.prefix_cons_iff.mp hb with rfl | ⟨b', rfl, hb'⟩
      · decide
      · rw [List.prefix_nil.mp hb']
        decide, by decide⟩
  exact ⟨.inr hback, .inr hback⟩

/-- **A GET can read outside the web root**: the path of an accepted request climbs out of it. -/
theorem traversal_example :
    ¬ ∀ (line : Bytes) (c : HttpContext) (resp : HttpResponse),
      HttpContext.processRequestLine {} line = .ok (true, c) → c.request.method = .kGet →
      (onRequest c.request resp : Handler Nat HttpResponse).Uses FileInside := by
  intro h
  have hline : HttpContext.RequestLineOf (ascii "GET /../../etc/passwd HTTP/1.1") .kGet
      (ascii "/../../etc/passwd") .kHttp11 := by decide
  have huses := h _ _ { closeConnection := false }
    (HttpContext.processRequestLine_parts (c := {}) rfl rfl hline) rfl
  rw [onRequest_get _ _ rfl, fileToString_inside_iff] at huses
  exact absurd huses (by decide +kernel)

end

end SimpleHttpServer
