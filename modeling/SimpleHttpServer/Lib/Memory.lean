import Mathlib.Logic.Function.Basic
import Mathlib.Tactic.TypeStar

/-!
# Memory

Cells by address. A cell that is not allocated has no contents, and one that is may be written,
freed and allocated again by anyone who has its address.

* `read p n`: the `n` cells from `p` on, if they all have contents;
* `Holds p as`: the cells from `p` on are `as`;
* **`read_eq_some_iff`**: a read sees exactly what the cells hold;
* `holds_store`: what a store elsewhere leaves as it is.
-/

namespace Lib

/-- What is at each address. -/
def Memory (α : Type*) := Nat → Option α

namespace Memory

variable {α : Type*}

/-- The `n` cells from `p` on. -/
def read (m : Memory α) : Nat → Nat → Option (List α)
  | _, 0 => some []
  | p, n + 1 =>
    match m p, m.read (p + 1) n with
    | some a, some as => some (a :: as)
    | _, _ => none

/-- Write a cell, or free it. -/
def store (m : Memory α) (p : Nat) (a : Option α) : Memory α := Function.update m p a

/-- The cells from `p` on are `as`. -/
def Holds (m : Memory α) : Nat → List α → Prop
  | _, [] => True
  | p, a :: as => m p = some a ∧ m.Holds (p + 1) as

variable {m : Memory α}

/-- **A read sees what the cells hold.** -/
theorem read_eq_some_iff : ∀ {n p : Nat} {as : List α},
    m.read p n = some as ↔ as.length = n ∧ m.Holds p as
  | 0, p, as => by
    rw [read, Option.some.injEq, eq_comm, List.length_eq_zero_iff]
    refine iff_self_and.mpr ?_
    rintro rfl
    trivial
  | n + 1, p, [] => by
    refine iff_of_false (fun h => ?_) fun h => absurd h.1 (Nat.succ_ne_zero n).symm
    unfold read at h
    split at h
    · exact absurd (Option.some.inj h) (List.cons_ne_nil _ _)
    · exact absurd h (Option.some_ne_none _).symm
  | n + 1, p, a :: as => by
    have hrest : m.read (p + 1) n = some as ↔ as.length = n ∧ m.Holds (p + 1) as :=
      read_eq_some_iff
    rw [List.length_cons, Nat.add_right_cancel_iff]
    show _ ↔ as.length = n ∧ m p = some a ∧ m.Holds (p + 1) as
    rw [and_left_comm, ← hrest, read]
    constructor
    · intro h
      split at h
      · rename_i b bs hb hbs
        obtain ⟨rfl, rfl⟩ := List.cons.inj (Option.some.inj h)
        exact ⟨hb, hbs⟩
      · exact absurd h (Option.some_ne_none _).symm
    · rintro ⟨ha, has⟩
      rw [ha, has]

/-- A store outside of `as` leaves it as it is. -/
theorem holds_store {q : Nat} {a : Option α} : ∀ {as : List α} {p : Nat},
    ¬(p ≤ q ∧ q < p + as.length) → ((m.store q a).Holds p as ↔ m.Holds p as)
  | [], _, _ => Iff.rfl
  | b :: bs, p, h => by
    rw [List.length_cons] at h
    have hcell : m.store q a p = m p := Function.update_of_ne (by omega) _ _
    show _ ∧ _ ↔ _ ∧ _
    rw [hcell, holds_store (by omega)]

end Memory

end Lib
