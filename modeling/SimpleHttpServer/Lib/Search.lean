import Mathlib.Data.List.Infix
import Mathlib.Data.List.TakeWhile

/-!
# Searching a sequence: `std::find` and `std::search`

`breakAt c xs` splits `xs` at the first `c`, as the pointer `std::find` returns does; an absent `c`
leaves the second half empty. `search pat xs` is the index of the first occurrence of `pat`.

* `search_append`: an occurrence found stays the first one when more input arrives;
* `search_line`: a line without the two-symbol delimiter `a b` ends at the delimiter put after it.
-/

namespace Lib.Search

variable {α : Type*} [DecidableEq α]

/-! ## `std::find` -/

/-- `[first, p)` and `[p, last)` for `p = std::find(first, last, c)`. -/
def breakAt (c : α) (xs : List α) : List α × List α :=
  (xs.takeWhile (· ≠ c), xs.dropWhile (· ≠ c))

theorem breakAt_append (c : α) (xs : List α) : (breakAt c xs).1 ++ (breakAt c xs).2 = xs :=
  List.takeWhile_append_dropWhile

theorem not_mem_breakAt_fst (c : α) (xs : List α) : c ∉ (breakAt c xs).1 := by
  intro h
  simpa using List.mem_takeWhile_imp h

theorem breakAt_of_not_mem {c : α} {xs : List α} (h : c ∉ xs) : breakAt c xs = (xs, []) := by
  have hall : ∀ x ∈ xs, decide (x ≠ c) = true := fun x hx =>
    decide_eq_true fun (e : x = c) => h (e ▸ hx)
  unfold breakAt
  rw [List.takeWhile_eq_self_iff.mpr hall, List.dropWhile_eq_nil_iff.mpr hall]

theorem breakAt_append_cons {c : α} {xs : List α} (h : c ∉ xs) (ys : List α) :
    breakAt c (xs ++ c :: ys) = (xs, c :: ys) := by
  have hall : ∀ x ∈ xs, decide (x ≠ c) = true := fun x hx =>
    decide_eq_true fun (e : x = c) => h (e ▸ hx)
  unfold breakAt
  rw [List.takeWhile_append_of_pos hall, List.dropWhile_append_of_pos hall]
  simp

theorem breakAt_snd_eq_nil {c : α} {xs : List α} : (breakAt c xs).2 = [] ↔ c ∉ xs := by
  constructor
  · intro h
    rw [← breakAt_append c xs, h, List.append_nil]
    exact not_mem_breakAt_fst c xs
  · intro h
    rw [breakAt_of_not_mem h]

/-- What is left after the split starts with the symbol looked for. -/
theorem breakAt_snd_cons {c d : α} {xs ys : List α} (h : (breakAt c xs).2 = d :: ys) : d = c := by
  have hd := List.head?_dropWhile_not (fun x => decide (x ≠ c)) xs
  unfold breakAt at h
  simp only at h
  rw [h] at hd
  simpa using hd

/-! ## `std::search` -/

/-- The index of the first occurrence of `pat`. -/
def search (pat : List α) : List α → Option Nat
  | [] => if pat = [] then some 0 else none
  | x :: xs => if pat <+: x :: xs then some 0 else (search pat xs).map (· + 1)

/-- What `search` finds is an occurrence. -/
theorem search_spec {pat : List α} : ∀ {xs : List α} {i : Nat}, search pat xs = some i →
    ∃ rest, xs = xs.take i ++ pat ++ rest ∧ i + pat.length ≤ xs.length
  | [], i, h => by
    simp only [search] at h
    split at h
    · rename_i hp
      cases h
      exact ⟨[], by simp [hp]⟩
    · cases h
  | x :: xs, i, h => by
    simp only [search] at h
    split at h
    · rename_i hp
      cases h
      obtain ⟨rest, hrest⟩ := hp
      exact ⟨rest, by simp [hrest], by rw [← hrest]; simp⟩
    · obtain ⟨j, hj, rfl⟩ := Option.map_eq_some_iff.mp h
      obtain ⟨rest, hrest, hlen⟩ := search_spec hj
      refine ⟨rest, ?_, by rw [List.length_cons]; omega⟩
      rw [List.take_succ_cons, List.cons_append, List.cons_append, ← hrest]

/-- Nothing occurs in front of the first occurrence. -/
theorem not_infix_take {pat : List α} (hne : pat ≠ []) : ∀ {xs : List α} {i : Nat},
    search pat xs = some i → ¬ pat <:+: xs.take i
  | [], i, h => by
    rw [search, if_neg hne] at h
    cases h
  | x :: xs, i, h => by
    rw [search] at h
    split at h
    · cases h
      simpa using hne
    · rename_i hp
      obtain ⟨j, hj, rfl⟩ := Option.map_eq_some_iff.mp h
      rw [List.take_succ_cons]
      intro hin
      rcases List.infix_cons_iff.mp hin with hpre | hin
      · exact hp (hpre.trans (List.prefix_cons_inj x |>.mpr (List.take_prefix j xs)))
      · exact not_infix_take hne hj hin

/-- **An occurrence found stays the first one** when the sequence is extended. -/
theorem search_append {pat : List α} : ∀ {xs : List α} {i : Nat}, search pat xs = some i →
    ∀ ys, search pat (xs ++ ys) = some i
  | [], i, h, ys => by
    simp only [search] at h
    split at h
    · rename_i hp
      subst hp
      cases ys <;> simpa [search] using h
    · cases h
  | x :: xs, i, h, ys => by
    have hlen := (search_spec h).choose_spec.2
    simp only [search] at h
    rw [List.cons_append, search]
    split at h
    · rename_i hp
      have hp' : pat <+: x :: (xs ++ ys) := hp.trans (List.prefix_append (x :: xs) ys)
      rw [if_pos hp']
      exact h
    · rename_i hp
      have hp' : ¬ pat <+: x :: (xs ++ ys) := fun hpre =>
        hp (List.prefix_of_prefix_length_le hpre (List.prefix_append (x :: xs) ys) (by omega))
      obtain ⟨j, hj, rfl⟩ := Option.map_eq_some_iff.mp h
      rw [if_neg hp', search_append hj ys]
      rfl

/-- A line that does not contain the delimiter `a b` ends at the delimiter put after it. -/
theorem search_line {a b : α} (hab : a ≠ b) : ∀ {line : List α}, ¬ [a, b] <:+: line →
    ∀ rest, search [a, b] (line ++ a :: b :: rest) = some line.length
  | [], _, rest => by
    have hp : [a, b] <+: a :: b :: rest := List.prefix_append [a, b] rest
    rw [List.nil_append, search, if_pos hp]
    rfl
  | x :: xs, h, rest => by
    have hxs : ¬ [a, b] <:+: xs := fun hin => h (hin.trans (List.suffix_cons x xs).isInfix)
    have hpre : ¬ [a, b] <+: x :: (xs ++ a :: b :: rest) := by
      intro hp
      cases xs with
      | nil =>
        simp only [List.nil_append, List.cons_prefix_cons] at hp
        exact hab hp.2.1.symm
      | cons y ys =>
        simp only [List.cons_append, List.cons_prefix_cons] at hp
        obtain ⟨rfl, rfl, -⟩ := hp
        exact h (List.prefix_append [a, b] ys).isInfix
    rw [List.cons_append, search, if_neg hpre, search_line hab hxs rest]
    rfl

end Lib.Search
