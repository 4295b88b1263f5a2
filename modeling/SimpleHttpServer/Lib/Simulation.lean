import Mathlib.Data.List.Forall2
import SimpleHttpServer.Lib.Machine

/-!
# Simulations

A `Simulation C A` says that the machine `A` can do what the machine `C` does: the initial states
are related to initial ones, and from related states a step of `C` is matched by a run of `A` that
`shows` the same. The run may be empty.

* **`Simulation.run`**: so is a run of `C`, and it ends in related states;
* **`Simulation.reachable`**: a reachable state is related to a reachable one, so what holds of all
  reachable states of `A` comes back along the relation.
-/

namespace Lib

namespace Machine

variable {σ τ α β : Type*}

/-- `A` simulates `C`. -/
structure Simulation (C : Machine σ α) (A : Machine τ β) where
  rel : σ → τ → Prop
  /-- The runs of `A` that show what the action does. -/
  shows : α → List β → Prop
  init : ∀ s, C.init s → ∃ t, A.init t ∧ rel s t
  step : ∀ s t a, rel s t → C.guard s a →
    ∃ bs, shows a bs ∧ A.Legal t bs ∧ rel (C.next s a) (A.after t bs)

namespace Simulation

variable {C : Machine σ α} {A : Machine τ β} (S : Simulation C A)

/-- **A run is matched by a run.** -/
theorem run : ∀ {as : List α} {s : σ} {t : τ}, S.rel s t → C.Legal s as →
    ∃ bss : List (List β), List.Forall₂ S.shows as bss ∧ A.Legal t bss.flatten ∧
      S.rel (C.after s as) (A.after t bss.flatten)
  | [], _, _, h, _ => ⟨[], .nil, trivial, h⟩
  | a :: as, s, t, h, hl => by
    obtain ⟨bs, hshows, hlegal, hrel⟩ := S.step s t a h hl.1
    obtain ⟨bss, hall, hrest, hend⟩ := run hrel hl.2
    refine ⟨bs :: bss, .cons hshows hall, ?_, ?_⟩
    · rw [List.flatten_cons, legal_append]
      exact ⟨hlegal, hrest⟩
    · rw [List.flatten_cons, after_append]
      exact hend

/-- **A reachable state is related to a reachable one.** -/
theorem reachable {s : σ} (h : C.Reachable s) : ∃ t, A.Reachable t ∧ S.rel s t := by
  refine Reachable.invariant (I := fun s => ∃ t, A.Reachable t ∧ S.rel s t) h
    (fun s hinit => ?_) fun s a ⟨t, ht, hrel⟩ hg => ?_
  · obtain ⟨t, ht, hrel⟩ := S.init s hinit
    exact ⟨t, .init ht, hrel⟩
  · obtain ⟨bs, -, hlegal, hrel'⟩ := S.step s t a hrel hg
    exact ⟨A.after t bs, Reachable.run ht hlegal, hrel'⟩

end Simulation

end Machine

end Lib
