import Mathlib

/-!
# Frames one after another

A `Framing` reads one frame off the front of a stream and says what is left of it. `readAll` reads
frames for as long as it can.

* **`readAll_written`**: if every frame is read back with whatever follows it, a stream written
  frame by frame is read back as the list of them, and the rest is read as it would be alone;
* `written_injective`: two lists of frames that look the same are the same.
-/

namespace Lib.Frames

/-- A reader of one frame. A frame is not empty. -/
structure Framing (α β : Type*) where
  read : List α → Option (β × List α)
  shorter : ∀ {xs rest : List α} {x : β}, read xs = some (x, rest) → rest.length < xs.length

variable {α β γ : Type*} (f : Framing α β)

namespace Framing

/-- The frames at the front of a stream, and what follows them. -/
def readAll (xs : List α) : List β × List α :=
  match _h : f.read xs with
  | none => ([], xs)
  | some (x, rest) => (x :: (readAll rest).1, (readAll rest).2)
termination_by xs.length
decreasing_by
  all_goals exact f.shorter _h

variable {f}

theorem readAll_none {xs : List α} (h : f.read xs = none) : f.readAll xs = ([], xs) := by
  rw [readAll]
  split
  · rfl
  · rename_i heq
    rw [h] at heq
    cases heq

theorem readAll_some {xs rest : List α} {x : β} (h : f.read xs = some (x, rest)) :
    f.readAll xs = (x :: (f.readAll rest).1, (f.readAll rest).2) := by
  rw [readAll]
  split
  · rename_i heq
    rw [h] at heq
    cases heq
  · rename_i y rest' heq
    obtain ⟨rfl, rfl⟩ : x = y ∧ rest = rest' := by
      rw [h] at heq
      simpa using heq
    rfl

/-- There is no frame in an empty stream. -/
@[simp] theorem readAll_nil : f.readAll [] = ([], []) := by
  refine readAll_none ?_
  cases h : f.read [] with
  | none => rfl
  | some p => exact absurd (f.shorter h) (Nat.not_lt_zero _)

variable {write : γ → List α} {value : γ → β}

/-- **Frames written one after another are read back.** -/
theorem readAll_written (rest : List α) : ∀ {gs : List γ},
    (∀ g ∈ gs, ∀ rest, f.read (write g ++ rest) = some (value g, rest)) →
      f.readAll (gs.flatMap write ++ rest) =
        (gs.map value ++ (f.readAll rest).1, (f.readAll rest).2)
  | [], _ => rfl
  | g :: gs, h => by
    have hread := h g List.mem_cons_self (gs.flatMap write ++ rest)
    have ih := readAll_written rest fun x hx => h x (List.mem_cons_of_mem g hx)
    rw [List.flatMap_cons, List.append_assoc, readAll_some hread, ih]
    rfl

/-- The stream tells which frames were written. -/
theorem written_injective {gs gs' : List γ}
    (h : ∀ g ∈ gs, ∀ rest, f.read (write g ++ rest) = some (value g, rest))
    (h' : ∀ g ∈ gs', ∀ rest, f.read (write g ++ rest) = some (value g, rest))
    (heq : gs.flatMap write = gs'.flatMap write) : gs.map value = gs'.map value := by
  have hread := readAll_written [] h
  have hread' := readAll_written [] h'
  rw [heq, hread'] at hread
  simpa using (congrArg Prod.fst hread).symm

end Framing

end Lib.Frames
