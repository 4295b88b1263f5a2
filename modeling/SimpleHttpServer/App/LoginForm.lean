import SimpleHttpServer.Sql.SqlOperation

/-!
# The form body of `/login` and `/register`

Both routes of `onRequest` (`example/test.cpp`) take the username and the password out of the body
by the same lines: positions from `std::string::find` are narrowed to `int`, compared with
`std::string::npos`, and added up as `int`s before they are `size_t` again.

* `FormBody`: what a body that is split looks like;
* **`splitForm_eq_some_iff`**: a body of less than `2 ^ 31` bytes is split exactly if it looks so;
* `InBounds` is what the positions in any body must be for these lines to go through:
  `splitForm_ok_iff`; in a body of less than `2 ^ 31` bytes they are: `inBounds_of_lt`.
-/

namespace SimpleHttpServer

/-- `std::string::npos`. -/
def npos : Nat := 2 ^ 64 - 1

/-- `s.find(c, pos)`. -/
def find (s : Bytes) (c : UInt8) (pos : Nat) : Nat :=
  if c ∈ s.drop pos then pos + (s.drop pos).idxOf c else npos

/-- The number fits an `int`. -/
def IsInt (x : Int) : Prop := -2 ^ 31 ≤ x ∧ x < 2 ^ 31

instance (x : Int) : Decidable (IsInt x) := inferInstanceAs (Decidable (_ ∧ _))

/-- The result of `int` arithmetic. -/
def checkInt (x : Int) : Except Abort Int := if IsInt x then .ok x else .error .intOverflow

/-- `s.substr(pos, n)`. -/
def substr (s : Bytes) (pos n : Nat) : Except Abort Bytes :=
  if pos ≤ s.length then .ok ((s.drop pos).take n) else .error .outOfRange

/-- `'='`. -/
def equalsSign : UInt8 := 61

/-- `'&'`. -/
def ampersand : UInt8 := 38

/-- The username and the password, unless one of the positions is `npos`. -/
def splitForm (body : Bytes) : Except Abort (Option (Bytes × Bytes)) := do
  let namestart := toInt (find body equalsSign 0)
  let nameend := toInt (find body ampersand 0)
  let passwdstart := toInt (find body equalsSign (toSize nameend))
  if toSize namestart = npos ∨ toSize nameend = npos ∨ toSize passwdstart = npos then
    return none
  let pos ← checkInt (namestart + 1)
  let length ← checkInt (nameend - namestart)
  let length ← checkInt (length - 1)
  let username ← substr body (toSize pos) (toSize length)
  let pos ← checkInt (passwdstart + 1)
  let userpasswd ← substr body (toSize pos) (toSize (body.length - passwdstart - 1))
  return some (username, userpasswd)

/-- The lines of `splitForm` go through: a position is `npos`, or the sums are `int`s and the two
`substr` start in the body. -/
def InBounds (body : Bytes) : Prop :=
  let namestart := toInt (find body equalsSign 0)
  let nameend := toInt (find body ampersand 0)
  let passwdstart := toInt (find body equalsSign (toSize nameend))
  (toSize namestart = npos ∨ toSize nameend = npos ∨ toSize passwdstart = npos) ∨
    (IsInt (namestart + 1) ∧ IsInt (nameend - namestart) ∧ IsInt (nameend - namestart - 1) ∧
      IsInt (passwdstart + 1)) ∧
    toSize (namestart + 1) ≤ body.length ∧ toSize (passwdstart + 1) ≤ body.length

/-- `k1=username&k2=userpasswd`, where the first `=` and the first `&` are the ones shown, and the
next `=` is the one before the password; or a first `&` before the first `=`, and then both are
what follows that `=`. -/
def FormBody (body username userpasswd : Bytes) : Prop :=
  (∃ k₁ k₂, body = k₁ ++ equalsSign :: username ++ ampersand :: k₂ ++ equalsSign :: userpasswd ∧
    equalsSign ∉ k₁ ∧ ampersand ∉ k₁ ∧ ampersand ∉ username ∧ equalsSign ∉ k₂) ∨
  (∃ k₁ k₂, body = k₁ ++ ampersand :: k₂ ++ equalsSign :: username ∧ userpasswd = username ∧
    equalsSign ∉ k₁ ∧ ampersand ∉ k₁ ∧ equalsSign ∉ k₂)

/-! ## Positions -/

variable {s xs ys : Bytes} {c : UInt8} {pos n : Nat}

theorem find_of_not_mem (h : c ∉ s.drop pos) : find s c pos = npos := if_neg h

theorem find_append (h : c ∉ xs) : find (xs ++ c :: ys) c 0 = xs.length := by
  unfold find
  rw [List.drop_zero, if_pos (List.mem_append_right xs List.mem_cons_self),
    List.idxOf_append_of_notMem h, List.idxOf_cons_self]
  omega

/-- The search from a position goes on where it starts. -/
theorem find_drop (h : c ∈ ys) : find (xs ++ ys) c xs.length = xs.length + find ys c 0 := by
  unfold find
  rw [List.drop_left, if_pos h, List.drop_zero, if_pos h]
  omega

theorem toInt_npos : toInt npos = -1 := by decide

theorem toSize_neg_one : toSize (-1) = npos := by decide

theorem ok_bind {α β : Type} (a : α) (f : α → Except Abort β) : (Except.ok a >>= f) = f a := rfl

theorem checkInt_ok {x : Int} (h : IsInt x) : checkInt x = .ok x := if_pos h

theorem substr_append (xs ys zs : Bytes) :
    substr (xs ++ (ys ++ zs)) xs.length ys.length = .ok ys := by
  unfold substr
  rw [if_pos (by simp), List.drop_left, List.take_left]

theorem substr_rest (h : ys.length ≤ n) : substr (xs ++ ys) xs.length n = .ok ys := by
  unfold substr
  rw [if_pos (by simp), List.drop_left, List.take_of_length_le h]

/-! ## Splitting -/

/-- With the positions found, the rest is the two `substr`. -/
theorem splitForm_of_positions {body username userpasswd : Bytes} {i j k : Nat}
    (hlen : body.length < 2 ^ 31) (hi : i < body.length) (hj : j < body.length)
    (hk : k < body.length) (hfirst : find body equalsSign 0 = i)
    (hamp : find body ampersand 0 = j) (hsecond : find body equalsSign j = k)
    (hname : substr body (i + 1) (toSize (j - i - 1)) = .ok username)
    (hpasswd : substr body (k + 1) (body.length - k - 1) = .ok userpasswd) :
    splitForm body = .ok (some (username, userpasswd)) := by
  have hint : ∀ n : Nat, n < body.length → toInt n = n := fun n hn => toInt_of_lt (by omega)
  have hsize : ∀ n : Nat, n ≤ body.length → toSize n = n := fun n hn =>
    toSize_of_nonneg (by omega)
  have hnpos : ∀ n : Nat, n < body.length → ¬ toSize n = npos := fun n hn heq => by
    rw [hsize n hn.le] at heq
    unfold npos at heq
    omega
  have hpos : toSize ((i : Int) + 1) = i + 1 := hsize (i + 1) hi
  have hpos' : toSize ((k : Int) + 1) = k + 1 := hsize (k + 1) hk
  have hrest : toSize ((body.length : Int) - k - 1) = body.length - k - 1 := by
    rw [show (body.length : Int) - k - 1 = (body.length - k - 1 : Nat) by omega]
    exact hsize _ (by omega)
  have hcheck₁ : checkInt ((i : Int) + 1) = .ok (i + 1) := checkInt_ok ⟨by omega, by omega⟩
  have hcheck₂ : checkInt ((j : Int) - i) = .ok (j - i) := checkInt_ok ⟨by omega, by omega⟩
  have hcheck₃ : checkInt ((j : Int) - i - 1) = .ok (j - i - 1) := checkInt_ok ⟨by omega, by omega⟩
  have hcheck₄ : checkInt ((k : Int) + 1) = .ok (k + 1) := checkInt_ok ⟨by omega, by omega⟩
  have hfound : ¬(toSize i = npos ∨ toSize j = npos ∨ toSize k = npos) := by
    rw [not_or, not_or]
    exact ⟨hnpos i hi, hnpos j hj, hnpos k hk⟩
  unfold splitForm
  simp only [hfirst, hamp, hint i hi, hint j hj, hsize j hj.le, hsecond, hint k hk] at hfound ⊢
  rw [if_neg hfound]
  simp only [hcheck₁, hcheck₂, hcheck₃, hcheck₄, hpos, hpos', hrest, hname, hpasswd, ok_bind]
  rfl

/-- The first form: the username stands between the first `=` and the first `&`. -/
theorem splitForm_of_inOrder {k₁ k₂ username userpasswd body : Bytes}
    (hbody : body = k₁ ++ equalsSign :: username ++ ampersand :: k₂ ++ equalsSign :: userpasswd)
    (hlen : body.length < 2 ^ 31) (he₁ : equalsSign ∉ k₁) (ha₁ : ampersand ∉ k₁)
    (hau : ampersand ∉ username) (he₂ : equalsSign ∉ k₂) :
    splitForm body = .ok (some (username, userpasswd)) := by
  have hne : equalsSign ≠ ampersand := by decide
  have hhead : ampersand ∉ k₁ ++ equalsSign :: username := by
    rw [List.mem_append, List.mem_cons, not_or, not_or]
    exact ⟨ha₁, hne.symm, hau⟩
  have hsecond : equalsSign ∉ ampersand :: k₂ := by
    rw [List.mem_cons, not_or]
    exact ⟨hne, he₂⟩
  have hsize : body.length = k₁.length + (username.length + 1) + (k₂.length + 1) +
      (userpasswd.length + 1) := by
    rw [hbody]
    simp only [List.length_append, List.length_cons]
  have hj : (k₁ ++ equalsSign :: username).length = k₁.length + 1 + username.length := by
    simp only [List.length_append, List.length_cons]
    omega
  refine splitForm_of_positions (i := k₁.length) (j := k₁.length + 1 + username.length)
    (k := k₁.length + 1 + username.length + (k₂.length + 1)) hlen (by omega) (by omega) (by omega)
    ?_ ?_ ?_ ?_ ?_
  · rw [hbody, List.append_assoc, List.append_assoc, List.cons_append]
    exact find_append he₁
  · rw [hbody, List.append_assoc (k₁ ++ equalsSign :: username), List.cons_append, ← hj]
    exact find_append hhead
  · rw [hbody, List.append_assoc (k₁ ++ equalsSign :: username), ← hj,
      find_drop (List.mem_append_right _ List.mem_cons_self)]
    exact congrArg _ (find_append hsecond)
  · have hn : toSize (((k₁.length + 1 + username.length : Nat) : Int) - k₁.length - 1) =
        username.length := by
      rw [show ((k₁.length + 1 + username.length : Nat) : Int) - k₁.length - 1 =
        username.length by omega]
      exact toSize_of_nonneg (by omega)
    have hsplit : body =
        (k₁ ++ [equalsSign]) ++ (username ++ (ampersand :: k₂ ++ equalsSign :: userpasswd)) := by
      rw [hbody]
      simp
    have hpos : k₁.length + 1 = (k₁ ++ [equalsSign]).length := by simp
    rw [hn, hsplit, hpos]
    exact substr_append _ _ _
  · have hsplit : body =
        (k₁ ++ equalsSign :: username ++ ampersand :: k₂ ++ [equalsSign]) ++ userpasswd := by
      rw [hbody]
      simp
    have hpos : k₁.length + 1 + username.length + (k₂.length + 1) + 1 =
        (k₁ ++ equalsSign :: username ++ ampersand :: k₂ ++ [equalsSign]).length := by
      simp only [List.length_append, List.length_cons, List.length_nil]
      omega
    rw [show body.length - (k₁.length + 1 + username.length + (k₂.length + 1)) - 1 =
      userpasswd.length by omega, hpos, hsplit]
    exact substr_rest le_rfl

/-- The second form: `nameend - namestart - 1` is negative, so the username goes on to the end. -/
theorem splitForm_of_reversed {k₁ k₂ username body : Bytes}
    (hbody : body = k₁ ++ ampersand :: k₂ ++ equalsSign :: username)
    (hlen : body.length < 2 ^ 31) (he₁ : equalsSign ∉ k₁) (ha₁ : ampersand ∉ k₁)
    (he₂ : equalsSign ∉ k₂) : splitForm body = .ok (some (username, username)) := by
  have hne : equalsSign ≠ ampersand := by decide
  have hsecond : equalsSign ∉ ampersand :: k₂ := by
    rw [List.mem_cons, not_or]
    exact ⟨hne, he₂⟩
  have hfirst : equalsSign ∉ k₁ ++ ampersand :: k₂ := by
    rw [List.mem_append, not_or]
    exact ⟨he₁, hsecond⟩
  have hi : (k₁ ++ ampersand :: k₂).length = k₁.length + (k₂.length + 1) := by
    simp only [List.length_append, List.length_cons]
  have hsize : body.length = k₁.length + (k₂.length + 1) + (username.length + 1) := by
    rw [hbody]
    simp only [List.length_append, List.length_cons]
  have hsplit : body = (k₁ ++ ampersand :: k₂ ++ [equalsSign]) ++ username := by
    rw [hbody]
    simp
  have hpos : k₁.length + (k₂.length + 1) + 1 = (k₁ ++ ampersand :: k₂ ++ [equalsSign]).length := by
    simp only [List.length_append, List.length_cons, List.length_nil]
  refine splitForm_of_positions (i := k₁.length + (k₂.length + 1)) (j := k₁.length)
    (k := k₁.length + (k₂.length + 1)) hlen (by omega) (by omega) (by omega) ?_ ?_ ?_ ?_ ?_
  · rw [hbody, ← hi]
    exact find_append hfirst
  · rw [hbody, List.append_assoc]
    exact find_append ha₁
  · rw [hbody, List.append_assoc, find_drop (List.mem_append_right _ List.mem_cons_self)]
    exact congrArg _ (find_append hsecond)
  · have hn : username.length ≤
        toSize ((k₁.length : Int) - (k₁.length + (k₂.length + 1) : Nat) - 1) := by
      unfold toSize
      omega
    rw [hpos, hsplit]
    exact substr_rest hn
  · rw [show body.length - (k₁.length + (k₂.length + 1)) - 1 = username.length by omega, hpos,
      hsplit]
    exact substr_rest le_rfl

theorem splitForm_of_formBody {body username userpasswd : Bytes} (hlen : body.length < 2 ^ 31)
    (h : FormBody body username userpasswd) :
    splitForm body = .ok (some (username, userpasswd)) := by
  rcases h with ⟨k₁, k₂, hbody, he₁, ha₁, hau, he₂⟩ | ⟨k₁, k₂, hbody, hsame, he₁, ha₁, he₂⟩
  · exact splitForm_of_inOrder hbody hlen he₁ ha₁ hau he₂
  · rw [hsame]
    exact splitForm_of_reversed hbody hlen he₁ ha₁ he₂

/-- A position that is missing makes the form none. -/
theorem splitForm_of_missing {body : Bytes}
    (h : find body equalsSign 0 = npos ∨ find body ampersand 0 = npos ∨
      find body equalsSign (toSize (toInt (find body ampersand 0))) = npos) :
    splitForm body = .ok none := by
  have hmissing : toSize (toInt (find body equalsSign 0)) = npos ∨
      toSize (toInt (find body ampersand 0)) = npos ∨
      toSize (toInt (find body equalsSign (toSize (toInt (find body ampersand 0))))) = npos := by
    have hback : ∀ n, n = npos → toSize (toInt n) = npos := by
      rintro n rfl
      rw [toInt_npos, toSize_neg_one]
    exact h.imp (hback _) (.imp (hback _) (hback _))
  unfold splitForm
  simp only [if_pos hmissing]
  rfl

/-- A body has one of the two forms, or a position is missing. -/
theorem formBody_or_none {body : Bytes} (hlen : body.length < 2 ^ 31) :
    (∃ username userpasswd, FormBody body username userpasswd) ∨ splitForm body = .ok none := by
  by_cases ha : ampersand ∈ body
  · obtain ⟨head, tail, rfl, hhead⟩ := List.eq_append_cons_of_mem ha
    have hamp : find (head ++ ampersand :: tail) ampersand 0 = head.length := find_append hhead
    by_cases he : equalsSign ∈ tail
    · obtain ⟨k₂, userpasswd, rfl, hk₂⟩ := List.eq_append_cons_of_mem he
      by_cases he' : equalsSign ∈ head
      · obtain ⟨k₁, username, rfl, hk₁⟩ := List.eq_append_cons_of_mem he'
        rw [List.mem_append, List.mem_cons, not_or, not_or] at hhead
        refine .inl ⟨username, userpasswd, .inl ⟨k₁, k₂, ?_, hk₁, hhead.1, hhead.2.2, hk₂⟩⟩
        simp
      · refine .inl ⟨userpasswd, userpasswd, .inr ⟨head, k₂, ?_, rfl, he', hhead, hk₂⟩⟩
        simp
    · refine .inr (splitForm_of_missing (.inr (.inr ?_)))
      have hlt : head.length < 2 ^ 31 := by
        rw [List.length_append] at hlen
        omega
      rw [hamp, toInt_of_lt hlt, toSize_of_nonneg (by omega)]
      refine find_of_not_mem ?_
      rw [List.drop_left, List.mem_cons, not_or]
      exact ⟨by decide, he⟩
  · exact .inr (splitForm_of_missing (.inr (.inl (find_of_not_mem ha))))

/-- **A body is split exactly if it has one of the two forms**, and into the parts shown. -/
theorem splitForm_eq_some_iff {body username userpasswd : Bytes} (hlen : body.length < 2 ^ 31) :
    splitForm body = .ok (some (username, userpasswd)) ↔ FormBody body username userpasswd := by
  refine ⟨fun h => ?_, splitForm_of_formBody hlen⟩
  rcases formBody_or_none hlen with ⟨u, p, hform⟩ | hnone
  · have heq := (splitForm_of_formBody hlen hform).symm.trans h
    obtain ⟨rfl, rfl⟩ := Prod.mk.inj (Option.some.inj (Except.ok.inj heq))
    exact hform
  · exact nomatch hnone.symm.trans h

/-- A body of neither form is not split, and nothing goes wrong. -/
theorem splitForm_eq_none_iff {body : Bytes} (hlen : body.length < 2 ^ 31) :
    splitForm body = .ok none ↔ ∀ username userpasswd, ¬ FormBody body username userpasswd := by
  constructor
  · intro hnone username userpasswd hform
    exact nomatch hnone.symm.trans (splitForm_of_formBody hlen hform)
  · intro hno
    exact (formBody_or_none hlen).resolve_left fun ⟨u, p, hform⟩ => hno u p hform

/-! ## Any body -/

theorem checkInt_bind_ok_iff {β : Type} {x : Int} {f : Int → Except Abort β} :
    (∃ b, (checkInt x >>= f) = .ok b) ↔ IsInt x ∧ ∃ b, f x = .ok b := by
  unfold checkInt
  split
  · rename_i h
    exact (and_iff_right h).symm
  · rename_i h
    exact iff_of_false nofun fun hx => h hx.1

theorem substr_bind_ok_iff {β : Type} {s : Bytes} {pos n : Nat} {f : Bytes → Except Abort β} :
    (∃ b, (substr s pos n >>= f) = .ok b) ↔
      pos ≤ s.length ∧ ∃ b, f ((s.drop pos).take n) = .ok b := by
  unfold substr
  split
  · rename_i h
    exact (and_iff_right h).symm
  · rename_i h
    exact iff_of_false nofun fun hx => h hx.1

/-- **The split goes through exactly if the positions are in bounds.** -/
theorem splitForm_ok_iff (body : Bytes) : (∃ form, splitForm body = .ok form) ↔ InBounds body := by
  unfold splitForm InBounds
  simp only
  split
  · rename_i hmissing
    exact iff_of_true ⟨none, rfl⟩ (.inl hmissing)
  · rename_i hfound
    rw [or_iff_right hfound]
    simp only [checkInt_bind_ok_iff, substr_bind_ok_iff]
    constructor
    · rintro ⟨hpos, hlength, hlength', hstart, hpos', hstart', -⟩
      exact ⟨⟨hpos, hlength, hlength', hpos'⟩, hstart, hstart'⟩
    · rintro ⟨⟨hpos, hlength, hlength', hpos'⟩, hstart, hstart'⟩
      exact ⟨hpos, hlength, hlength', hstart, hpos', hstart', _, rfl⟩

theorem inBounds_of_lt {body : Bytes} (hlen : body.length < 2 ^ 31) : InBounds body := by
  refine (splitForm_ok_iff body).mp ?_
  rcases formBody_or_none hlen with ⟨u, p, hform⟩ | hnone
  · exact ⟨_, splitForm_of_formBody hlen hform⟩
  · exact ⟨_, hnone⟩

end SimpleHttpServer
