import Mathlib

/-!
# Relative paths, resolved lexically

A path is a list of steps from a directory: `stay`, `up` to the parent, `down` to a name. `walk`
resolves it without looking at a file system: a step up cancels the name before it, and one that
has no name before it leaves the directory the path started in.

* `walk_balance`: names minus steps out of the start are steps down minus steps up;
* `walk_stays`: a path whose prefixes have at least as many steps down as up never leaves;
* **`below_walk_iff`**: a path leads below the name `r` if and only if it has a step down to `r`
  such that the steps before it end where they started without ever leaving, and those behind it
  never leave;
* `enters_down_iff`: when it starts with a step down, that is `r` and the others never leave it, or
  they leave and come back (`ComesBack`).
-/

namespace Lib.Path

variable {α : Type*}

/-- What a segment of a path does. -/
inductive Step (α : Type*) where
  | stay
  | up
  | down (name : α)
  deriving DecidableEq

/-- Steps out of the start, and the names entered from there, the last one first. -/
structure Pos (α : Type*) where
  ups : Nat
  names : List α
  deriving DecidableEq

/-- Where a step leads. -/
def move : Pos α → Step α → Pos α
  | p, .stay => p
  | ⟨u, []⟩, .up => ⟨u + 1, []⟩
  | ⟨u, _ :: ns⟩, .up => ⟨u, ns⟩
  | ⟨u, ns⟩, .down n => ⟨u, n :: ns⟩

/-- Where the steps lead from `p`. -/
def walk (p : Pos α) (steps : List (Step α)) : Pos α := steps.foldl move p

/-- The position `p` itself, or one that is entered from it. -/
def Below (p q : Pos α) : Prop := p.ups = q.ups ∧ p.names <:+ q.names

instance [DecidableEq α] (p q : Pos α) : Decidable (Below p q) :=
  inferInstanceAs (Decidable (_ ∧ _))

/-- What a step adds to the depth. -/
def Step.depth : Step α → Int
  | .stay => 0
  | .up => -1
  | .down _ => 1

/-- Steps down minus steps up. -/
def depth (steps : List (Step α)) : Int := (steps.map Step.depth).sum

/-- No prefix has more steps up than down. -/
def Stays (steps : List (Step α)) : Prop := ∀ pre, pre <+: steps → 0 ≤ depth pre

@[simp] theorem depth_nil : depth ([] : List (Step α)) = 0 := rfl

@[simp] theorem depth_concat (steps : List (Step α)) (s : Step α) :
    depth (steps ++ [s]) = depth steps + s.depth := by
  simp [depth]

theorem walk_append (p : Pos α) (xs ys : List (Step α)) :
    walk p (xs ++ ys) = walk (walk p xs) ys := List.foldl_append

@[simp] theorem walk_concat (p : Pos α) (steps : List (Step α)) (s : Step α) :
    walk p (steps ++ [s]) = move (walk p steps) s := walk_append p steps [s]

theorem stays_nil : Stays ([] : List (Step α)) := by
  intro pre hpre
  rw [List.prefix_nil.mp hpre]
  exact Int.le_refl 0

theorem stays_concat {steps : List (Step α)} {s : Step α} :
    Stays (steps ++ [s]) ↔ Stays steps ∧ 0 ≤ depth (steps ++ [s]) := by
  constructor
  · intro h
    exact ⟨fun pre hpre => h pre (hpre.trans (List.prefix_append _ _)), h _ (List.prefix_refl _)⟩
  · rintro ⟨h, hlast⟩ pre hpre
    rcases List.prefix_concat_iff.mp hpre with rfl | hpre
    · exact hlast
    · exact h pre hpre

/-! ## Where a walk leads -/

theorem move_balance (p : Pos α) (s : Step α) :
    ((move p s).names.length : Int) - (move p s).ups = p.names.length - p.ups + s.depth := by
  obtain ⟨u, ns⟩ := p
  cases s with
  | stay => simp [move, Step.depth]
  | up =>
    cases ns with
    | nil =>
      simp only [move, Step.depth, List.length_nil]
      omega
    | cons n ns =>
      simp only [move, Step.depth, List.length_cons]
      omega
  | down n =>
    simp only [move, Step.depth, List.length_cons]
    omega

/-- The balance of a walk. -/
theorem walk_balance (p : Pos α) (steps : List (Step α)) :
    ((walk p steps).names.length : Int) - (walk p steps).ups =
      p.names.length - p.ups + depth steps := by
  induction steps using List.reverseRecOn with
  | nil => simp [walk]
  | append_singleton steps s ih =>
    rw [walk_concat, move_balance, depth_concat]
    omega

/-- A step out of the start is never undone. -/
theorem ups_le_move (p : Pos α) (s : Step α) : p.ups ≤ (move p s).ups := by
  obtain ⟨u, ns⟩ := p
  cases s with
  | stay => exact Nat.le_refl u
  | up =>
    cases ns with
    | nil => exact Nat.le_succ u
    | cons n ns => exact Nat.le_refl u
  | down n => exact Nat.le_refl u

theorem ups_le_walk (p : Pos α) (steps : List (Step α)) : p.ups ≤ (walk p steps).ups := by
  induction steps using List.reverseRecOn with
  | nil => exact Nat.le_refl _
  | append_singleton steps s ih =>
    rw [walk_concat]
    exact Nat.le_trans ih (ups_le_move _ s)

/-- A walk that never leaves keeps what stands below. -/
theorem walk_stays (k : Nat) (ns : List α) (steps : List (Step α)) : Stays steps →
    ∃ ms, walk ⟨k, ns⟩ steps = ⟨k, ms ++ ns⟩ ∧ (ms.length : Int) = depth steps := by
  induction steps using List.reverseRecOn with
  | nil => exact fun _ => ⟨[], rfl, rfl⟩
  | append_singleton steps s ih =>
    intro h
    obtain ⟨hstays, hlast⟩ := stays_concat.mp h
    obtain ⟨ms, hwalk, hlen⟩ := ih hstays
    rw [depth_concat] at hlast ⊢
    rw [walk_concat, hwalk]
    cases s with
    | stay => exact ⟨ms, rfl, by rw [hlen, Step.depth, Int.add_zero]⟩
    | up =>
      cases ms with
      | nil =>
        simp only [List.length_nil, Step.depth] at hlen hlast
        omega
      | cons m ms =>
        refine ⟨ms, rfl, ?_⟩
        simp only [List.length_cons, Step.depth] at hlen ⊢
        omega
    | down n =>
      refine ⟨n :: ms, rfl, ?_⟩
      simp only [List.length_cons, Step.depth]
      omega

/-- A walk that ends without having left never did. -/
theorem stays_of_walk {k : Nat} {ns : List α} {steps : List (Step α)}
    (h : walk ⟨k, []⟩ steps = ⟨k, ns⟩) : Stays steps := by
  rintro pre ⟨post, rfl⟩
  have hpre := ups_le_walk (⟨k, []⟩ : Pos α) pre
  have hpost := ups_le_walk (walk (⟨k, []⟩ : Pos α) pre) post
  rw [← walk_append, h] at hpost
  have hbalance := walk_balance (⟨k, []⟩ : Pos α) pre
  simp only [List.length_nil] at hpre hpost hbalance
  omega

/-- A step down to `r` between steps that end where they started and steps that never leave. -/
def Enters (r : α) (steps : List (Step α)) : Prop :=
  ∃ pre post, steps = pre ++ .down r :: post ∧ Stays pre ∧ depth pre = 0 ∧ Stays post

theorem Enters.walk {r : α} {steps : List (Step α)} (h : Enters r steps) (k : Nat) :
    ∃ ms, walk ⟨k, []⟩ steps = ⟨k, ms ++ [r]⟩ := by
  obtain ⟨pre, post, rfl, hpre, hdepth, hpost⟩ := h
  obtain ⟨ms, hwalk, hlen⟩ := walk_stays k [] pre hpre
  have hms : ms = [] := List.length_eq_zero_iff.mp (by omega)
  obtain ⟨ns, hrest, -⟩ := walk_stays k [r] post hpost
  refine ⟨ns, ?_⟩
  rw [walk_append, hwalk, hms]
  exact hrest

/-- One more step behind `r`. -/
theorem Enters.concat {r : α} {steps : List (Step α)} (h : Enters r steps) {s : Step α} {k : Nat}
    {ms : List α} (hwalk : Path.walk ⟨k, []⟩ (steps ++ [s]) = ⟨k, ms ++ [r]⟩) :
    Enters r (steps ++ [s]) := by
  obtain ⟨pre, post, rfl, hpre, hdepth, hpost⟩ := h
  refine ⟨pre, post ++ [s], by simp, hpre, hdepth, stays_concat.mpr ⟨hpost, ?_⟩⟩
  have hbalance := walk_balance (⟨k, []⟩ : Pos α) (pre ++ .down r :: post ++ [s])
  rw [hwalk] at hbalance
  have hsum : depth (pre ++ .down r :: post ++ [s]) = depth pre + 1 + depth (post ++ [s]) := by
    simp only [depth, List.map_append, List.map_cons, List.sum_append, List.sum_cons, Step.depth,
      List.map_nil, List.sum_nil]
    omega
  simp only [List.length_append, List.length_cons, List.length_nil] at hbalance
  omega

/-- A walk that ends below `r` has entered it. -/
theorem enters_of_walk {r : α} {k : Nat} (steps : List (Step α)) : ∀ ms : List α,
    walk ⟨k, []⟩ steps = ⟨k, ms ++ [r]⟩ → Enters r steps := by
  induction steps using List.reverseRecOn with
  | nil =>
    intro ms h
    have hnames := congrArg Pos.names h
    simp [walk] at hnames
  | append_singleton steps s ih =>
    intro ms h
    have hstep := h
    rw [walk_concat] at hstep
    obtain ⟨u, ns, hw⟩ : ∃ u ns, walk (⟨k, []⟩ : Pos α) steps = ⟨u, ns⟩ := ⟨_, _, rfl⟩
    rw [hw] at hstep
    cases s with
    | stay => exact (ih ms (hw.trans hstep)).concat h
    | up =>
      cases ns with
      | nil =>
        have hnames := congrArg Pos.names hstep
        simp [move] at hnames
      | cons n ns =>
        obtain ⟨rfl, rfl⟩ := Pos.mk.inj hstep
        exact (ih (n :: ms) hw).concat h
    | down n =>
      obtain ⟨rfl, hnames⟩ := Pos.mk.inj hstep
      cases ms with
      | nil =>
        obtain ⟨rfl, rfl⟩ := List.cons.inj hnames
        have hbalance := walk_balance (⟨u, []⟩ : Pos α) steps
        rw [hw] at hbalance
        simp only [List.length_nil] at hbalance
        exact ⟨steps, [], rfl, stays_of_walk hw, by omega, stays_nil⟩
      | cons m ms =>
        obtain ⟨rfl, rfl⟩ := List.cons.inj hnames
        exact (ih ms hw).concat h

/-- **Which paths lead below a name.** -/
theorem below_walk_iff {r : α} {k : Nat} {steps : List (Step α)} :
    Below ⟨k, [r]⟩ (walk ⟨k, []⟩ steps) ↔ Enters r steps := by
  constructor
  · rintro ⟨hups, ms, hnames⟩
    refine enters_of_walk (k := k) steps ms ?_
    generalize walk (⟨k, []⟩ : Pos α) steps = p at hups hnames
    obtain ⟨u, ns⟩ := p
    simp only at hups hnames
    rw [← hups, ← hnames]
  · intro h
    obtain ⟨ms, hwalk⟩ := h.walk k
    rw [hwalk]
    exact ⟨rfl, ms, rfl⟩

/-! ## Behind a first step down -/

/-- One step up more than down, never two more, leads out; a step down to `r` leads back, and the
steps behind it never leave again. -/
def ComesBack (r : α) (steps : List (Step α)) : Prop :=
  ∃ pre post, steps = pre ++ .down r :: post ∧ depth pre = -1 ∧
    (∀ b, b <+: pre → -1 ≤ depth b) ∧ Stays post

theorem depth_cons (s : Step α) (steps : List (Step α)) :
    depth (s :: steps) = s.depth + depth steps := by
  simp [depth]

theorem stays_down_cons {n : α} {steps : List (Step α)} :
    Stays (.down n :: steps) ↔ ∀ b, b <+: steps → -1 ≤ depth b := by
  constructor
  · intro h b hb
    have hle := h (.down n :: b) ((List.prefix_cons_inj _).mpr hb)
    rw [depth_cons, Step.depth] at hle
    omega
  · intro h b hb
    rcases List.prefix_cons_iff.mp hb with rfl | ⟨b', rfl, hb'⟩
    · exact Int.le_refl 0
    · have hle := h b' hb'
      rw [depth_cons, Step.depth]
      omega

/-- **Paths that start with a step down**: it is the one to `r`, or the others come back. -/
theorem enters_down_iff {n r : α} {steps : List (Step α)} :
    Enters r (.down n :: steps) ↔ n = r ∧ Stays steps ∨ ComesBack r steps := by
  constructor
  · rintro ⟨pre, post, heq, hpre, hdepth, hpost⟩
    cases pre with
    | nil =>
      obtain ⟨hn, rfl⟩ := List.cons.inj heq
      exact .inl ⟨Step.down.inj hn, hpost⟩
    | cons s pre =>
      obtain ⟨rfl, rfl⟩ := List.cons.inj heq
      rw [depth_cons, Step.depth] at hdepth
      exact .inr ⟨pre, post, rfl, by omega, stays_down_cons.mp hpre, hpost⟩
  · rintro (⟨rfl, h⟩ | ⟨pre, post, rfl, hdepth, hpre, hpost⟩)
    · exact ⟨[], steps, rfl, stays_nil, rfl, h⟩
    · refine ⟨.down n :: pre, post, rfl, stays_down_cons.mpr hpre, ?_, hpost⟩
      rw [depth_cons, hdepth]
      rfl

/-- Without a step up a path never leaves. -/
theorem stays_of_not_up {steps : List (Step α)} (h : .up ∉ steps) : Stays steps := by
  induction steps using List.reverseRecOn with
  | nil => exact stays_nil
  | append_singleton steps s ih =>
    rw [List.mem_append, not_or] at h
    have hstays := ih h.1
    refine stays_concat.mpr ⟨hstays, ?_⟩
    have hdepth := hstays steps (List.prefix_refl steps)
    rw [depth_concat]
    cases s with
    | up => exact absurd List.mem_cons_self h.2
    | stay | down n =>
      rw [Step.depth]
      omega

theorem not_comesBack_of_not_up {r : α} {steps : List (Step α)} (h : .up ∉ steps) :
    ¬ ComesBack r steps := by
  rintro ⟨pre, post, rfl, hdepth, -⟩
  have hpre : Stays pre := stays_of_not_up fun hmem => h (List.mem_append_left _ hmem)
  have hle := hpre pre (List.prefix_refl pre)
  omega

instance (steps : List (Step α)) : Decidable (Stays steps) :=
  decidable_of_iff (∀ b ∈ steps.inits, 0 ≤ depth b)
    ⟨fun h b hb => h b (List.mem_inits b steps |>.mpr hb),
      fun h b hb => h b (List.mem_inits b steps |>.mp hb)⟩

end Lib.Path
