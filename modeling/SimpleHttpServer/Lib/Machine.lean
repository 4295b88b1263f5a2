import Mathlib.Tactic.Basic
import Mathlib.Tactic.TypeStar

/-!
# Guarded machines

A machine has a guard and an effect for each action: concurrent threads are one machine whose
actions are the atomic steps of all of them, so a run is an interleaving.

* `Reach C s`: `s` is reached from an initial state by steps that all meet `C`; `Reachable` is
  `Reach` without a condition. `Reach.invariant` is the invariant rule for both.
* A run is a list of actions: `Legal` says its guards hold, `after` is where it ends, `Always P`
  says `P` holds in every state it visits and `Along C` that all its steps meet `C`.
* **`always_iff_along`**: if, while `P` holds, a step keeps `P` exactly when it meets `C`, then `P`
  holds throughout a run exactly when the run's steps all meet `C`. `Along.imp` and
  `along_iff_along` compare two conditions on steps.
* `remember` lets a machine keep something of its run in its state.
-/

namespace Lib

/-- A machine with states `σ` and actions `α`. -/
structure Machine (σ α : Type*) where
  init : σ → Prop
  guard : σ → α → Prop
  next : σ → α → σ

namespace Machine

variable {σ α : Type*} (M : Machine σ α)

/-- Reachable by steps that all meet `C`. -/
inductive Reach (C : σ → α → Prop) : σ → Prop where
  | init {s : σ} : M.init s → Reach C s
  | step {s : σ} {a : α} : Reach C s → M.guard s a → C s a → Reach C (M.next s a)

/-- Reachable. -/
abbrev Reachable : σ → Prop := M.Reach fun _ _ => True

/-- Every guard of the run holds where its action is taken. -/
def Legal (s : σ) : List α → Prop
  | [] => True
  | a :: as => M.guard s a ∧ Legal (M.next s a) as

instance decidableLegal [∀ s a, Decidable (M.guard s a)] : ∀ s as, Decidable (M.Legal s as)
  | _, [] => inferInstanceAs (Decidable True)
  | s, a :: as =>
    have : Decidable (M.Legal (M.next s a) as) := decidableLegal (M.next s a) as
    inferInstanceAs (Decidable (M.guard s a ∧ M.Legal (M.next s a) as))

/-- Where the run ends. -/
def after (s : σ) (as : List α) : σ := as.foldl M.next s

/-- `P` holds in every state the run visits. -/
def Always (P : σ → Prop) (s : σ) : List α → Prop
  | [] => P s
  | a :: as => P s ∧ Always P (M.next s a) as

/-- Every step of the run meets `C`. -/
def Along (C : σ → α → Prop) (s : σ) : List α → Prop
  | [] => True
  | a :: as => C s a ∧ Along C (M.next s a) as

variable {M}

theorem legal_append : ∀ {as bs : List α} {s : σ},
    M.Legal s (as ++ bs) ↔ M.Legal s as ∧ M.Legal (M.after s as) bs
  | [], _, _ => iff_of_eq (true_and _).symm
  | a :: as, bs, s => by
    show M.guard s a ∧ M.Legal (M.next s a) (as ++ bs) ↔
      (M.guard s a ∧ M.Legal (M.next s a) as) ∧ M.Legal (M.after (M.next s a) as) bs
    rw [legal_append, and_assoc]

theorem after_append (s : σ) (as bs : List α) :
    M.after s (as ++ bs) = M.after (M.after s as) bs := List.foldl_append

/-- Every action of a legal run is admitted where it is taken. -/
theorem Legal.exists_guard : ∀ {as : List α} {s : σ}, M.Legal s as → ∀ a ∈ as, ∃ s, M.guard s a
  | [], _, _, _, ha => absurd ha List.not_mem_nil
  | _ :: _, s, hl, a, ha => by
    rcases List.mem_cons.mp ha with rfl | ha
    · exact ⟨s, hl.1⟩
    · exact Legal.exists_guard hl.2 a ha

/-- **The invariant rule.** -/
theorem Reach.invariant {C : σ → α → Prop} {I : σ → Prop} {s : σ} (h : M.Reach C s)
    (hinit : ∀ s, M.init s → I s)
    (hstep : ∀ s a, I s → M.guard s a → C s a → I (M.next s a)) : I s := by
  induction h with
  | init h => exact hinit _ h
  | step _ hg hC ih => exact hstep _ _ ih hg hC

/-- The invariant rule for all runs. -/
theorem Reachable.invariant {I : σ → Prop} {s : σ} (h : M.Reachable s)
    (hinit : ∀ s, M.init s → I s) (hstep : ∀ s a, I s → M.guard s a → I (M.next s a)) : I s :=
  Reach.invariant h hinit fun s a hI hg _ => hstep s a hI hg

/-- What every step keeps is kept by a run. -/
theorem Legal.invariant {I : σ → Prop} (hstep : ∀ s a, I s → M.guard s a → I (M.next s a)) :
    ∀ {as : List α} {s : σ}, M.Legal s as → I s → I (M.after s as)
  | [], _, _, h => h
  | a :: as, s, hl, h => by
    show I (M.after (M.next s a) as)
    exact Legal.invariant hstep hl.2 (hstep s a h hl.1)

/-- **A run is no longer than its potential**: every step lowers it, but for what it may cost. -/
theorem Legal.length_le {I : σ → Prop} {potential : σ → Nat} {cost : α → Nat}
    (hI : ∀ s a, I s → M.guard s a → I (M.next s a))
    (hstep : ∀ s a, I s → M.guard s a → potential (M.next s a) + 1 ≤ potential s + cost a) :
    ∀ {as : List α} {s : σ}, M.Legal s as → I s →
      as.length + potential (M.after s as) ≤ potential s + as.foldr (fun a n => cost a + n) 0
  | [], s, _, _ => by
    show 0 + potential s ≤ potential s + 0
    omega
  | a :: as, s, hl, h => by
    have hrest := Legal.length_le hI hstep hl.2 (hI s a h hl.1)
    have hfirst := hstep s a h hl.1
    rw [List.foldr_cons, List.length_cons]
    show as.length + 1 + potential (M.after (M.next s a) as) ≤ _
    omega

/-- A legal run whose steps all meet the condition ends in a state reached under it. -/
theorem Reach.run {C : σ → α → Prop} : ∀ {as : List α} {s : σ}, M.Reach C s → M.Legal s as →
    M.Along C s as → M.Reach C (M.after s as)
  | [], _, h, _, _ => h
  | a :: as, s, h, hl, hC => by
    show M.Reach C (M.after (M.next s a) as)
    exact Reach.run (Reach.step h hl.1 hC.1) hl.2 hC.2

theorem along_true : ∀ (s : σ) (as : List α), M.Along (fun _ _ => True) s as
  | _, [] => trivial
  | s, a :: as => ⟨trivial, along_true (M.next s a) as⟩

/-- A legal run from a reachable state ends in a reachable state. -/
theorem Reachable.run {as : List α} {s : σ} (h : M.Reachable s) (hl : M.Legal s as) :
    M.Reachable (M.after s as) :=
  Reach.run h hl (along_true s as)

theorem Always.head {P : σ → Prop} {s : σ} : ∀ {as : List α}, M.Always P s as → P s
  | [], h => h
  | _ :: _, h => h.1

theorem Always.last {P : σ → Prop} : ∀ {as : List α} {s : σ}, M.Always P s as → P (M.after s as)
  | [], _, h => h
  | a :: as, s, h => by
    show P (M.after (M.next s a) as)
    exact Always.last h.2

/-- **A property holds throughout a run exactly when its steps all meet the condition**, if in the
states `I` describes a step keeps the property exactly when it meets the condition. -/
theorem always_iff_along {P I : σ → Prop} {C : σ → α → Prop}
    (hI : ∀ s a, I s → P s → M.guard s a → C s a → I (M.next s a))
    (hC : ∀ s a, I s → P s → M.guard s a → (P (M.next s a) ↔ C s a)) :
    ∀ {as : List α} {s : σ}, I s → P s → M.Legal s as → (M.Always P s as ↔ M.Along C s as)
  | [], s, _, hP, _ => iff_of_true hP trivial
  | a :: as, s, hIs, hP, hl => by
    constructor
    · rintro ⟨-, hrest⟩
      have hc := (hC s a hIs hP hl.1).mp hrest.head
      have hI' := hI s a hIs hP hl.1 hc
      exact ⟨hc, (always_iff_along hI hC hI' hrest.head hl.2).mp hrest⟩
    · rintro ⟨hc, hrest⟩
      have hP' := (hC s a hIs hP hl.1).mpr hc
      have hI' := hI s a hIs hP hl.1 hc
      exact ⟨hP, (always_iff_along hI hC hI' hP' hl.2).mpr hrest⟩

/-- A condition on steps that follows from another one, in the states `I` describes. -/
theorem Along.imp {I : σ → Prop} {C D : σ → α → Prop}
    (hI : ∀ s a, I s → M.guard s a → D s a → I (M.next s a))
    (hC : ∀ s a, I s → M.guard s a → D s a → C s a) :
    ∀ {as : List α} {s : σ}, M.Along D s as → I s → M.Legal s as → M.Along C s as
  | [], _, _, _, _ => trivial
  | a :: _, s, h, hIs, hl =>
    ⟨hC s a hIs hl.1 h.1, Along.imp hI hC h.2 (hI s a hIs hl.1 h.1) hl.2⟩

/-- **Two conditions hold along the same runs**, if in the states `I` describes they hold of the
same steps. -/
theorem along_iff_along {I : σ → Prop} {C D : σ → α → Prop}
    (hI : ∀ s a, I s → M.guard s a → D s a → I (M.next s a))
    (hC : ∀ s a, I s → M.guard s a → (C s a ↔ D s a)) {as : List α} {s : σ} (hIs : I s)
    (hl : M.Legal s as) : M.Along C s as ↔ M.Along D s as :=
  ⟨fun h => h.imp (fun s a hi hg hc => hI s a hi hg ((hC s a hi hg).mp hc))
      (fun s a hi hg => (hC s a hi hg).mp) hIs hl,
    fun h => h.imp hI (fun s a hi hg => (hC s a hi hg).mpr) hIs hl⟩

/-! ## Remembering -/

variable {μ : Type*}

/-- The machine, with something of its run remembered beside its state. -/
def remember (M : Machine σ α) (m₀ : μ) (record : μ → α → μ) : Machine (σ × μ) α where
  init s := M.init s.1 ∧ s.2 = m₀
  guard s a := M.guard s.1 a
  next s a := (M.next s.1 a, record s.2 a)

variable {m₀ : μ} {record : μ → α → μ}

theorem legal_remember : ∀ {as : List α} {s : σ × μ},
    (M.remember m₀ record).Legal s as ↔ M.Legal s.1 as
  | [], _ => Iff.rfl
  | _ :: _, _ => and_congr_right fun _ => legal_remember

/-- A condition that does not look at what is remembered. -/
theorem along_remember {C : σ → α → Prop} : ∀ {as : List α} {s : σ × μ},
    (M.remember m₀ record).Along (fun s a => C s.1 a) s as ↔ M.Along C s.1 as
  | [], _ => Iff.rfl
  | _ :: _, _ => and_congr_right fun _ => along_remember

end Machine

end Lib
