import Mathlib.Data.List.Sort
import Mathlib.Data.List.TakeWhile

/-!
# Ordered sets as sorted lists

A set whose elements are kept in increasing order, as `std::set` keeps them: `insert` and `erase`
an element, `front?` is the least one, and `below a` and `since a` are the two sides of the lower
bound of `a`. The order of the elements is part of the type, so the laws are about membership:
`mem_insert`, `mem_erase`, `mem_below`, `mem_since`, and `front?_le`. As bags, `insert` adds an
element that is not there and `erase` takes one that is: `toList_insert` and `toList_erase`.
-/

namespace Lib

/-- Elements of `α` in strictly increasing order. -/
structure SortedSet (α : Type*) [LinearOrder α] where
  toList : List α
  sorted : toList.Pairwise (· < ·)

namespace SortedSet

variable {α : Type*} [LinearOrder α]

instance : Membership α (SortedSet α) := ⟨fun s a => a ∈ s.toList⟩

instance (a : α) (s : SortedSet α) : Decidable (a ∈ s) :=
  List.instDecidableMemOfLawfulBEq a s.toList

/-- The set with no element. -/
def empty : SortedSet α := ⟨[], .nil⟩

theorem nodup (s : SortedSet α) : s.toList.Nodup := s.sorted.imp ne_of_lt

theorem sorted_orderedInsert {l : List α} (h : l.Pairwise (· < ·)) {a : α} (ha : a ∉ l) :
    (l.orderedInsert (· ≤ ·) a).Pairwise (· < ·) := by
  have hle : (l.orderedInsert (· ≤ ·) a).Pairwise (· ≤ ·) :=
    (h.imp le_of_lt).orderedInsert a l
  have hne : (l.orderedInsert (· ≤ ·) a).Pairwise (· ≠ ·) :=
    (List.perm_orderedInsert (· ≤ ·) a l).nodup_iff.mpr (List.nodup_cons.mpr ⟨ha, h.imp ne_of_lt⟩)
  exact (hle.and hne).imp fun hab => lt_of_le_of_ne hab.1 hab.2

/-- The set with `a` in its place. -/
def insert (s : SortedSet α) (a : α) : SortedSet α :=
  if h : a ∈ s.toList then s
  else ⟨s.toList.orderedInsert (· ≤ ·) a, sorted_orderedInsert s.sorted h⟩

/-- The set without `a`. -/
def erase (s : SortedSet α) (a : α) : SortedSet α :=
  ⟨s.toList.erase a, s.sorted.sublist List.erase_sublist⟩

/-- The least element. -/
def front? (s : SortedSet α) : Option α := s.toList.head?

/-- The elements before the lower bound of `a`, in order. -/
def below (s : SortedSet α) (a : α) : List α := s.toList.takeWhile (· < a)

/-- The elements from the lower bound of `a` on. -/
def since (s : SortedSet α) (a : α) : SortedSet α :=
  ⟨s.toList.dropWhile (· < a), s.sorted.sublist (List.dropWhile_sublist _)⟩

variable {s : SortedSet α} {a b : α}

@[simp] theorem not_mem_empty (a : α) : a ∉ (empty : SortedSet α) := List.not_mem_nil

@[simp] theorem mem_insert : b ∈ s.insert a ↔ b = a ∨ b ∈ s := by
  show b ∈ (s.insert a).toList ↔ b = a ∨ b ∈ s.toList
  unfold insert
  split
  · rename_i h
    exact (or_iff_right_of_imp fun heq => by rwa [heq]).symm
  · exact List.mem_orderedInsert _

@[simp] theorem mem_erase : b ∈ s.erase a ↔ b ≠ a ∧ b ∈ s :=
  s.nodup.mem_erase_iff

theorem toList_insert (h : a ∉ s) : (s.insert a).toList.Perm (a :: s.toList) := by
  have heq : (s.insert a).toList = s.toList.orderedInsert (· ≤ ·) a := by
    unfold insert
    exact congrArg toList (dif_neg h)
  rw [heq]
  exact List.perm_orderedInsert (· ≤ ·) a s.toList

theorem toList_erase (h : a ∈ s) : s.toList.Perm (a :: (s.erase a).toList) :=
  List.perm_cons_erase h

/-- The lower bound of `a` splits a sorted list. -/
theorem mem_takeWhile_lt : ∀ {l : List α}, l.Pairwise (· < ·) →
    (b ∈ l.takeWhile (· < a) ↔ b ∈ l ∧ b < a)
  | [], _ => by simp
  | x :: l, h => by
    rw [List.pairwise_cons] at h
    by_cases hx : x < a
    · rw [List.takeWhile_cons_of_pos (by simpa using hx), List.mem_cons, List.mem_cons,
        mem_takeWhile_lt h.2, or_and_right]
      exact or_congr_left (iff_self_and.mpr fun heq => by rwa [heq])
    · rw [List.takeWhile_cons_of_neg (by simpa using hx)]
      refine iff_of_false List.not_mem_nil ?_
      rintro ⟨hmem, hb⟩
      rcases List.mem_cons.mp hmem with rfl | hmem
      · exact hx hb
      · exact hx ((h.1 b hmem).trans hb)

theorem mem_dropWhile_lt : ∀ {l : List α}, l.Pairwise (· < ·) →
    (b ∈ l.dropWhile (· < a) ↔ b ∈ l ∧ a ≤ b)
  | [], _ => by simp
  | x :: l, h => by
    rw [List.pairwise_cons] at h
    by_cases hx : x < a
    · rw [List.dropWhile_cons_of_pos (by simpa using hx), mem_dropWhile_lt h.2, List.mem_cons]
      refine and_congr_left fun hle => (or_iff_right ?_).symm
      rintro rfl
      exact absurd hx hle.not_gt
    · rw [List.dropWhile_cons_of_neg (by simpa using hx)]
      refine iff_self_and.mpr fun hmem => ?_
      rcases List.mem_cons.mp hmem with rfl | hmem
      · exact not_lt.mp hx
      · exact (not_lt.mp hx).trans (h.1 b hmem).le

theorem mem_below : b ∈ s.below a ↔ b ∈ s ∧ b < a := mem_takeWhile_lt s.sorted

@[simp] theorem mem_since : b ∈ s.since a ↔ b ∈ s ∧ a ≤ b := mem_dropWhile_lt s.sorted

theorem nodup_below (s : SortedSet α) (a : α) : (s.below a).Nodup :=
  s.nodup.sublist (List.takeWhile_sublist _)

theorem front?_eq_none : s.front? = none ↔ ∀ b, b ∉ s := by
  unfold front?
  rw [List.head?_eq_none_iff]
  exact List.eq_nil_iff_forall_not_mem

/-- The first element is in the set, and no other is before it. -/
theorem front?_le (h : s.front? = some a) : a ∈ s ∧ ∀ b ∈ s, a ≤ b := by
  obtain ⟨l, hl⟩ := List.head?_eq_some_iff.mp h
  have hsorted := s.sorted
  rw [hl, List.pairwise_cons] at hsorted
  refine ⟨?_, fun b hb => ?_⟩
  · show a ∈ s.toList
    rw [hl]
    exact List.mem_cons_self
  · change b ∈ s.toList at hb
    rw [hl] at hb
    rcases List.mem_cons.mp hb with rfl | hb
    · exact le_rfl
    · exact (hsorted.1 b hb).le

end SortedSet

end Lib
