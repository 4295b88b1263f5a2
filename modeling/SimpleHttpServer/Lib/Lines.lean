import SimpleHttpServer.Lib.Search

/-!
# Blocks of lines

A stream of lines that end in the two symbols `a b`. `block stop` is what a reader takes from it
that goes line by line up to the first one `stop` accepts: the lines before it, that line, and what
follows. If the stream ends before such a line is complete, the unfinished line is what is left.

* **`block_written`**: a block written line by line is read back;
* **`block_eq_of_forall`**, `block_last_of_exists`: a reader that also stops at other lines takes
  the same block exactly if it meets none of them.
-/

namespace Lib.Lines

open Lib.Search

variable {α : Type*} [DecidableEq α]

/-- Lines, the line that ends them if there is one, and what follows. -/
structure Block (α : Type*) where
  lines : List (List α)
  last : Option (List α)
  rest : List α

/-- A block with a line in front. -/
def Block.cons (line : List α) (r : Block α) : Block α := { r with lines := line :: r.lines }

variable (a b : α)

/-- The lines of `xs` up to the first one that `stop` accepts. -/
def block (stop : List α → Bool) (xs : List α) : Block α :=
  match _h : search [a, b] xs with
  | none => ⟨[], none, xs⟩
  | some n =>
    if stop (xs.take n) then ⟨[], some (xs.take n), xs.drop (n + 2)⟩
    else (block stop (xs.drop (n + 2))).cons (xs.take n)
termination_by xs.length
decreasing_by
  have hle : n + 2 ≤ xs.length := (search_spec _h).choose_spec.2
  rw [List.length_drop]
  omega

/-- Lines written one after another. -/
def written (ls : List (List α)) : List α := ls.flatMap (· ++ [a, b])

variable {a b} {stop : List α → Bool} {xs : List α} {n : Nat}

theorem block_waits (h : search [a, b] xs = none) : block a b stop xs = ⟨[], none, xs⟩ := by
  rw [block]
  split
  · rfl
  · rename_i heq
    rw [h] at heq
    cases heq

theorem block_stops (h : search [a, b] xs = some n) (hs : stop (xs.take n) = true) :
    block a b stop xs = ⟨[], some (xs.take n), xs.drop (n + 2)⟩ := by
  rw [block]
  split
  · rename_i heq
    rw [h] at heq
    cases heq
  · rename_i k heq
    obtain rfl : n = k := Option.some.inj (h.symm.trans heq)
    rw [if_pos hs]

theorem block_goesOn (h : search [a, b] xs = some n) (hs : stop (xs.take n) = false) :
    block a b stop xs = (block a b stop (xs.drop (n + 2))).cons (xs.take n) := by
  rw [block]
  split
  · rename_i heq
    rw [h] at heq
    cases heq
  · rename_i k heq
    obtain rfl : n = k := Option.some.inj (h.symm.trans heq)
    rw [if_neg (by rw [hs]; exact Bool.false_ne_true)]

/-- Induction along a block: a case for each way to read a line. -/
theorem block_induction {motive : List α → Prop} (stop : List α → Bool)
    (waits : ∀ xs, search [a, b] xs = none → motive xs)
    (stops : ∀ xs n, search [a, b] xs = some n → stop (xs.take n) = true → motive xs)
    (goesOn : ∀ xs n, search [a, b] xs = some n → stop (xs.take n) = false →
      motive (xs.drop (n + 2)) → motive xs) (xs : List α) : motive xs := by
  cases h : search [a, b] xs with
  | none => exact waits xs h
  | some n =>
    by_cases hs : stop (xs.take n) = true
    · exact stops xs n h hs
    · have hle : n + 2 ≤ xs.length := (search_spec h).choose_spec.2
      have hs' : stop (xs.take n) = false := by simpa using hs
      exact goesOn xs n h hs' (block_induction stop waits stops goesOn (xs.drop (n + 2)))
termination_by xs.length
decreasing_by
  rw [List.length_drop]
  omega

/-- What follows a block is the end of the stream. -/
theorem block_rest_suffix (xs : List α) : (block a b stop xs).rest <:+ xs := by
  induction xs using block_induction (a := a) (b := b) stop with
  | waits xs h =>
    rw [block_waits h]
  | stops xs n h hs =>
    rw [block_stops h hs]
    exact List.drop_suffix _ xs
  | goesOn xs n h hs ih =>
    rw [block_goesOn h hs]
    exact ih.trans (List.drop_suffix _ xs)

/-- A block that ends takes the end of its last line at least. -/
theorem block_rest_length (xs : List α) : (block a b stop xs).last.isSome = true →
    (block a b stop xs).rest.length + 2 ≤ xs.length := by
  induction xs using block_induction (a := a) (b := b) stop with
  | waits xs h =>
    rw [block_waits h]
    exact fun hlast => absurd hlast Bool.false_ne_true
  | stops xs n h hs =>
    intro _
    have hle : n + 2 ≤ xs.length := (search_spec h).choose_spec.2
    rw [block_stops h hs, List.length_drop]
    omega
  | goesOn xs n h hs ih =>
    rw [block_goesOn h hs]
    intro hlast
    refine (ih hlast).trans ?_
    rw [List.length_drop]
    exact Nat.sub_le _ _

/-- The lines in front of the last one are not accepted. -/
theorem stop_of_mem_lines (xs : List α) : ∀ l ∈ (block a b stop xs).lines, stop l = false := by
  induction xs using block_induction (a := a) (b := b) stop with
  | waits xs h =>
    rw [block_waits h]
    exact fun l hl => absurd hl List.not_mem_nil
  | stops xs n h hs =>
    rw [block_stops h hs]
    exact fun l hl => absurd hl List.not_mem_nil
  | goesOn xs n h hs ih =>
    rw [block_goesOn h hs]
    intro l hl
    rcases List.mem_cons.mp hl with rfl | hl
    · exact hs
    · exact ih l hl

/-! ## Streams written line by line -/

omit [DecidableEq α] in
theorem take_line (line rest : List α) : (line ++ a :: b :: rest).take line.length = line := by
  simp

omit [DecidableEq α] in
theorem drop_line (line rest : List α) :
    (line ++ a :: b :: rest).drop (line.length + 2) = rest := by
  simp

/-- The line that ends a block. -/
theorem block_end (hab : a ≠ b) {line : List α} (hl : ¬ [a, b] <:+: line)
    (hs : stop line = true) (rest : List α) :
    block a b stop (line ++ a :: b :: rest) = ⟨[], some line, rest⟩ := by
  have h := search_line hab hl rest
  rw [block_stops h (by rwa [take_line]), take_line, drop_line]

/-- Lines written in front of a stream stand in front of its block. -/
theorem block_append (hab : a ≠ b) : ∀ {ls : List (List α)},
    (∀ l ∈ ls, ¬ [a, b] <:+: l ∧ stop l = false) → ∀ rest,
      block a b stop (written a b ls ++ rest) =
        { block a b stop rest with lines := ls ++ (block a b stop rest).lines }
  | [], _, rest => rfl
  | l :: ls, h, rest => by
    obtain ⟨hl, hs⟩ := h l List.mem_cons_self
    have hstream : written a b (l :: ls) ++ rest = l ++ a :: b :: (written a b ls ++ rest) := by
      simp [written]
    have hsearch := search_line hab hl (written a b ls ++ rest)
    rw [hstream, block_goesOn hsearch (by rwa [take_line]), take_line, drop_line,
      block_append hab fun x hx => h x (List.mem_cons_of_mem l hx)]
    rfl

/-- **A block is read back** as it was written, with whatever follows. -/
theorem block_written (hab : a ≠ b) {ls : List (List α)} {last : List α}
    (hls : ∀ l ∈ ls, ¬ [a, b] <:+: l ∧ stop l = false) (hl : ¬ [a, b] <:+: last)
    (hs : stop last = true) (rest : List α) :
    block a b stop (written a b ls ++ (last ++ a :: b :: rest)) = ⟨ls, some last, rest⟩ := by
  rw [block_append hab hls, block_end hab hl hs, List.append_nil]

/-! ## Two readers -/

variable {p q : List α → Bool}

/-- **A reader that stops at more lines takes the same block** if it meets none of them. -/
theorem block_eq_of_forall (hpq : ∀ l, p l = true → q l = true) (xs : List α) :
    (∀ l ∈ (block a b p xs).lines, q l = false) → block a b q xs = block a b p xs := by
  induction xs using block_induction (a := a) (b := b) p with
  | waits xs h =>
    intro _
    rw [block_waits h, block_waits h]
  | stops xs n h hs =>
    intro _
    rw [block_stops h hs, block_stops h (hpq _ hs)]
  | goesOn xs n h hs ih =>
    rw [block_goesOn h hs]
    intro hall
    rw [block_goesOn h (hall _ List.mem_cons_self),
      ih fun l hl => hall l (List.mem_cons_of_mem _ hl)]

/-- It stops no later. -/
theorem block_last_mono (hpq : ∀ l, p l = true → q l = true) (xs : List α) :
    (block a b p xs).last.isSome = true → (block a b q xs).last.isSome = true := by
  induction xs using block_induction (a := a) (b := b) p with
  | waits xs h =>
    rw [block_waits h]
    exact fun hlast => absurd hlast Bool.false_ne_true
  | stops xs n h hs =>
    rw [block_stops h hs, block_stops h (hpq _ hs)]
    exact id
  | goesOn xs n h hs ih =>
    rw [block_goesOn h hs]
    intro hlast
    by_cases hstop : q (xs.take n) = true
    · rw [block_stops h hstop]
      rfl
    · rw [block_goesOn h (by simpa using hstop)]
      exact ih hlast

/-- If it meets one, it stops at one. -/
theorem block_last_of_exists (xs : List α) :
    (∃ l ∈ (block a b p xs).lines, q l = true) → (block a b q xs).last.isSome = true := by
  induction xs using block_induction (a := a) (b := b) p with
  | waits xs h =>
    rw [block_waits h]
    rintro ⟨l, hl, -⟩
    exact absurd hl List.not_mem_nil
  | stops xs n h hs =>
    rw [block_stops h hs]
    rintro ⟨l, hl, -⟩
    exact absurd hl List.not_mem_nil
  | goesOn xs n h hs ih =>
    rw [block_goesOn h hs]
    rintro ⟨l, hl, hq⟩
    by_cases hstop : q (xs.take n) = true
    · rw [block_stops h hstop]
      rfl
    · have hgo : q (xs.take n) = false := by simpa using hstop
      rw [block_goesOn h hgo]
      rcases List.mem_cons.mp hl with rfl | hl
      · exact absurd hq hstop
      · exact ih ⟨l, hl, hq⟩

end Lib.Lines
