import Mathlib.Data.List.Basic

/-!
# Stores: a list of cells addressed by index

A contiguous block of memory is a list of cells, and a pointer into it is an index. `slice xs lo hi`
are the cells `[lo, hi)`, `overwrite xs i ys` stores `ys` from index `i` on, and `resize xs n fill`
is a vector's resize. The laws say what a slice sees after an overwrite or a resize.
-/

namespace Lib.Store

variable {α : Type*}

/-- The cells at the indices `[lo, hi)`. -/
def slice (xs : List α) (lo hi : Nat) : List α := (xs.drop lo).take (hi - lo)

/-- Store `ys` at the indices `[i, i + ys.length)`. -/
def overwrite (xs : List α) (i : Nat) (ys : List α) : List α :=
  xs.take i ++ ys ++ xs.drop (i + ys.length)

/-- Cut to `n` cells, or grow to `n` with `fill`. -/
def resize (xs : List α) (n : Nat) (fill : α) : List α :=
  xs.take n ++ List.replicate (n - xs.length) fill

/-! ## Slices -/

@[simp] theorem slice_self (xs : List α) (i : Nat) : slice xs i i = [] := by
  simp [slice]

theorem length_slice {xs : List α} {lo hi : Nat} (h : hi ≤ xs.length) :
    (slice xs lo hi).length = hi - lo := by
  simp only [slice, List.length_take, List.length_drop]
  omega

theorem take_slice {xs : List α} {lo hi n : Nat} (h : lo + n ≤ hi) :
    (slice xs lo hi).take n = slice xs lo (lo + n) := by
  simp only [slice, List.take_take]
  congr 1
  omega

theorem drop_slice (xs : List α) (lo hi n : Nat) :
    (slice xs lo hi).drop n = slice xs (lo + n) hi := by
  simp only [slice, List.drop_take, List.drop_drop]
  congr 1
  omega

theorem slice_append_slice {xs : List α} {lo mid hi : Nat} (h₁ : lo ≤ mid) (h₂ : mid ≤ hi) :
    slice xs lo mid ++ slice xs mid hi = slice xs lo hi := by
  have hm : slice xs mid hi = (slice xs lo hi).drop (mid - lo) := by
    rw [drop_slice, Nat.add_sub_cancel' h₁]
  have hl : slice xs lo mid = (slice xs lo hi).take (mid - lo) := by
    rw [take_slice (by omega), Nat.add_sub_cancel' h₁]
  rw [hl, hm, List.take_append_drop]

/-! ## Overwriting -/

theorem length_overwrite {xs ys : List α} {i : Nat} (h : i + ys.length ≤ xs.length) :
    (overwrite xs i ys).length = xs.length := by
  simp only [overwrite, List.length_append, List.length_take, List.length_drop]
  omega

/-- A slice that ends where the overwrite starts is not touched. -/
theorem slice_overwrite_before {xs ys : List α} {lo hi i : Nat} (h : hi ≤ i) (hi' : i ≤ xs.length) :
    slice (overwrite xs i ys) lo hi = slice xs lo hi := by
  have key : ∀ zs : List α, slice zs lo hi = (zs.take hi).drop lo := fun zs => by
    rw [slice, List.drop_take]
  rw [key, key, overwrite, List.append_assoc, List.take_append_of_le_length (by simp; omega),
    List.take_take, Nat.min_eq_left h]

/-- The overwritten cells read back as what was written. -/
theorem slice_overwrite_self {xs ys : List α} {i : Nat} (h : i ≤ xs.length) :
    slice (overwrite xs i ys) i (i + ys.length) = ys := by
  simp [slice, overwrite, List.append_assoc, h]

/-- Overwriting from the end of a slice extends it. -/
theorem slice_overwrite_extend {xs ys : List α} {lo i : Nat} (hlo : lo ≤ i) (h : i ≤ xs.length) :
    slice (overwrite xs i ys) lo (i + ys.length) = slice xs lo i ++ ys := by
  rw [← slice_append_slice hlo (Nat.le_add_right i ys.length),
    slice_overwrite_before (Nat.le_refl i) h, slice_overwrite_self h]

/-! ## Resizing -/

@[simp] theorem length_resize (xs : List α) (n : Nat) (fill : α) :
    (resize xs n fill).length = n := by
  simp only [resize, List.length_append, List.length_take, List.length_replicate]
  omega

theorem slice_resize {xs : List α} {lo hi n : Nat} (fill : α) (hn : hi ≤ n) (hx : hi ≤ xs.length) :
    slice (resize xs n fill) lo hi = slice xs lo hi := by
  have key : ∀ zs : List α, slice zs lo hi = (zs.take hi).drop lo := fun zs => by
    rw [slice, List.drop_take]
  rw [key, key, resize, List.take_append_of_le_length (by simp; omega), List.take_take,
    Nat.min_eq_left hn]

end Lib.Store
