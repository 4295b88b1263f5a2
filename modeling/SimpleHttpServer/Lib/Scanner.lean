import Mathlib.Data.List.Basic

/-!
# Resumable scanners

A scanner reads a stream that arrives in pieces. On the unread input it waits for more, advances to
another state over some symbols, or halts with a verdict. The two laws it carries are that a move
consumes input that is there (and an advance consumes some), and that it is *stable*: whatever it
does without waiting it also does when more input stands behind.

* `scan` makes moves until the scanner waits or halts;
* **`scan_append`**: scanning an extended input is scanning the first part and resuming;
* **`scan_feed`**: feeding a stream piece by piece, with a scan after each piece, ends where one
  scan of the whole stream ends, for every way of cutting it;
* `scan_map`: a map between states that commutes with the moves commutes with scanning.
-/

namespace Lib

variable {α σ τ ρ : Type*}

/-- What a scanner does with the unread input. -/
inductive Move (σ ρ : Type*) where
  | wait
  | advance (s : σ) (n : Nat)
  | halt (r : ρ) (s : σ) (n : Nat)

/-- A move with its state mapped. -/
def Move.map (f : σ → τ) : Move σ ρ → Move τ ρ
  | .wait => .wait
  | .advance s n => .advance (f s) n
  | .halt r s n => .halt r (f s) n

/-- A resumable scanner of `α`s with states `σ` and verdicts `ρ`. -/
structure Scanner (α σ ρ : Type*) where
  move : σ → List α → Move σ ρ
  advance_le : ∀ {s xs s' n}, move s xs = .advance s' n → 0 < n ∧ n ≤ xs.length
  halt_le : ∀ {s xs r s' n}, move s xs = .halt r s' n → n ≤ xs.length
  stable : ∀ {s xs}, move s xs ≠ .wait → ∀ ys, move s (xs ++ ys) = move s xs

/-- Where a scan stopped: waiting (`none`) or halted, with the input left. -/
structure Scanned (α σ ρ : Type*) where
  verdict : Option ρ
  state : σ
  rest : List α

namespace Scanned

/-- More input behind what a scan left unread. -/
def extend (r : Scanned α σ ρ) (ys : List α) : Scanned α σ ρ := { r with rest := r.rest ++ ys }

/-- The state, seen through `f`. -/
def map (f : σ → τ) (r : Scanned α σ ρ) : Scanned α τ ρ := ⟨r.verdict, f r.state, r.rest⟩

end Scanned

namespace Scanner

variable (P : Scanner α σ ρ)

/-- Move until the scanner waits or halts. -/
def scan (s : σ) (xs : List α) : Scanned α σ ρ :=
  match _h : P.move s xs with
  | .wait => ⟨none, s, xs⟩
  | .advance s' n => scan s' (xs.drop n)
  | .halt r s' n => ⟨some r, s', xs.drop n⟩
termination_by xs.length
decreasing_by
  have := P.advance_le _h
  rw [List.length_drop]
  omega

variable {P}

theorem scan_wait {s : σ} {xs : List α} (h : P.move s xs = .wait) :
    P.scan s xs = ⟨none, s, xs⟩ := by
  rw [scan]
  split <;> simp_all

theorem scan_advance {s s' : σ} {xs : List α} {n : Nat} (h : P.move s xs = .advance s' n) :
    P.scan s xs = P.scan s' (xs.drop n) := by
  rw [scan]
  split <;> simp_all

theorem scan_halt {s s' : σ} {xs : List α} {r : ρ} {n : Nat} (h : P.move s xs = .halt r s' n) :
    P.scan s xs = ⟨some r, s', xs.drop n⟩ := by
  rw [scan]
  split <;> simp_all

/-- Induction along a scan: a case for each kind of move. -/
theorem scan_induction {motive : σ → List α → Prop}
    (wait : ∀ s xs, P.move s xs = .wait → motive s xs)
    (advance : ∀ s xs s' n, P.move s xs = .advance s' n → motive s' (xs.drop n) → motive s xs)
    (halt : ∀ s xs r s' n, P.move s xs = .halt r s' n → motive s xs) (s : σ) (xs : List α) :
    motive s xs := by
  cases h : P.move s xs with
  | wait => exact wait s xs h
  | advance s' n => exact advance s xs s' n h (scan_induction wait advance halt s' (xs.drop n))
  | halt r s' n => exact halt s xs r s' n h
termination_by xs.length
decreasing_by
  have := P.advance_le h
  rw [List.length_drop]
  omega

/-- What is left unread is a suffix of the input. -/
theorem scan_rest_suffix (s : σ) (xs : List α) : (P.scan s xs).rest <:+ xs := by
  induction s, xs using P.scan_induction with
  | wait s xs h => exact (scan_wait h).symm ▸ List.suffix_refl xs
  | advance s xs s' n h ih => rw [scan_advance h]; exact ih.trans (List.drop_suffix n xs)
  | halt s xs r s' n h => rw [scan_halt h]; exact List.drop_suffix n xs

/-! ## Resuming -/

variable (P) in
/-- Go on from where a scan stopped, with more input. -/
def resume (r : Scanned α σ ρ) (ys : List α) : Scanned α σ ρ :=
  match r.verdict with
  | none => P.scan r.state (r.rest ++ ys)
  | some _ => r.extend ys

theorem resume_none {r : Scanned α σ ρ} (h : r.verdict = none) (ys : List α) :
    P.resume r ys = P.scan r.state (r.rest ++ ys) := by
  rw [resume, h]

theorem resume_some {r : Scanned α σ ρ} {v : ρ} (h : r.verdict = some v) (ys : List α) :
    P.resume r ys = r.extend ys := by
  rw [resume, h]

/-- **Scanning an extended input is scanning its first part and resuming.** -/
theorem scan_append (s : σ) (xs ys : List α) :
    P.scan s (xs ++ ys) = P.resume (P.scan s xs) ys := by
  induction s, xs using P.scan_induction with
  | wait s xs h =>
    rw [scan_wait h]
    rfl
  | advance s xs s' n h ih =>
    have hmove : P.move s (xs ++ ys) = .advance s' n := by
      rw [P.stable (by simp [h]), h]
    rw [scan_advance hmove, List.drop_append_of_le_length (P.advance_le h).2, ih, scan_advance h]
  | halt s xs r s' n h =>
    have hmove : P.move s (xs ++ ys) = .halt r s' n := by
      rw [P.stable (by simp [h]), h]
    rw [scan_halt hmove, scan_halt h, List.drop_append_of_le_length (P.halt_le h)]
    rfl

/-- A scan that waits is where a scan of what it left would wait. -/
theorem scan_of_waits {s : σ} {xs : List α} (h : (P.scan s xs).verdict = none) (ys : List α) :
    P.scan s (xs ++ ys) = P.scan (P.scan s xs).state ((P.scan s xs).rest ++ ys) := by
  rw [scan_append, resume_none h]

/-- A verdict is not changed by what stands behind. -/
theorem scan_of_halts {s : σ} {xs : List α} {v : ρ} (h : (P.scan s xs).verdict = some v)
    (ys : List α) : P.scan s (xs ++ ys) = (P.scan s xs).extend ys := by
  rw [scan_append, resume_some h]

/-- A scan that consumes its whole input has not halted before the end of it. -/
theorem scan_waits_of_append {s : σ} {xs ys : List α} (h : (P.scan s (xs ++ ys)).rest = [])
    (hne : ys ≠ []) : (P.scan s xs).verdict = none := by
  cases hv : (P.scan s xs).verdict with
  | none => rfl
  | some v =>
    rw [scan_of_halts hv] at h
    exact absurd (List.append_eq_nil_iff.mp h).2 hne

/-! ## Feeding a stream in pieces -/

variable (P) in
/-- Append each piece to the unread input and scan, until a verdict; also the pieces not fed. -/
def feed (s : σ) (unread : List α) : List (List α) → Scanned α σ ρ × List (List α)
  | [] => (⟨none, s, unread⟩, [])
  | c :: cs =>
    let r := P.scan s (unread ++ c)
    match r.verdict with
    | none => feed r.state r.rest cs
    | some _ => (r, cs)

/-- **Feeding is scanning**: from a waiting scanner, one scan over everything ends in the same
verdict and state, and what feeding left unread or unfed is what that scan left. -/
theorem scan_feed : ∀ (cs : List (List α)) {s : σ} {unread : List α},
    P.scan s unread = ⟨none, s, unread⟩ →
      P.scan s (unread ++ cs.flatten) =
        (P.feed s unread cs).1.extend (P.feed s unread cs).2.flatten
  | [], s, unread, h => by
    rw [List.flatten_nil, List.append_nil, h]
    simp [feed, Scanned.extend]
  | c :: cs, s, unread, _ => by
    rw [List.flatten_cons, ← List.append_assoc, feed]
    cases hv : (P.scan s (unread ++ c)).verdict with
    | none =>
      have hq : P.scan (P.scan s (unread ++ c)).state (P.scan s (unread ++ c)).rest =
          ⟨none, (P.scan s (unread ++ c)).state, (P.scan s (unread ++ c)).rest⟩ := by
        have h := scan_of_waits hv []
        simp only [List.append_nil] at h
        rw [← h, ← hv]
      rw [scan_of_waits hv, scan_feed cs hq]
    | some v => exact scan_of_halts hv _

/-! ## Maps between scanners -/

/-- A map of states that commutes with the moves commutes with scanning. -/
theorem scan_map {Q : Scanner α τ ρ} {f : σ → τ}
    (h : ∀ s xs, Q.move (f s) xs = (P.move s xs).map f) (s : σ) (xs : List α) :
    Q.scan (f s) xs = (P.scan s xs).map f := by
  induction s, xs using P.scan_induction with
  | wait s xs hm => rw [scan_wait hm, scan_wait (by rw [h, hm]; rfl)]; rfl
  | advance s xs s' n hm ih =>
    have hq : Q.move (f s) xs = .advance (f s') n := by rw [h, hm]; rfl
    rw [scan_advance hm, scan_advance hq, ih]
  | halt s xs r s' n hm =>
    have hq : Q.move (f s) xs = .halt r (f s') n := by rw [h, hm]; rfl
    rw [scan_halt hm, scan_halt hq]
    rfl

end Scanner

end Lib
