import Mathlib.Tactic.Basic
import Mathlib.Tactic.TypeStar
import Mathlib.Logic.IsEmpty.Basic

/-!
# Programs over an interface

A program calls operations `Op` and goes on with their answers, until it is done. What the answers
are is not its business: a handler, another thread or the environment gives them. So a program is
the tree of all the ways it can go.

* `bind` and the monad;
* `Uses A p`: every call that `p` can make, whatever the answers, is in `A`; **`Uses.bind`**.
* `Ends R events result`: one run, by its calls with their answers; **`ends_bind_iff`**.
* `Evolves step s events s'`: the calls of a run take an environment from `s` to `s'`.
* `Keeps P E s p`: from the state `s` of the protocol `P` on, whatever the answers, `p` makes only
  calls that `P` allows, and ends as `E` says; **`Keeps.bind`**.
-/

namespace Lib

/-- A program that ends with an `α`; `Res op` is the type of the answers to `op`. -/
inductive Program (Op : Type) (Res : Op → Type) (α : Type) where
  | done (a : α)
  | call (op : Op) (next : Res op → Program Op Res α)

namespace Program

variable {Op : Type} {Res : Op → Type} {α β : Type}

/-- A program, and what follows its result. -/
def bind : Program Op Res α → (α → Program Op Res β) → Program Op Res β
  | .done a, f => f a
  | .call op next, f => .call op fun r => (next r).bind f

instance : Monad (Program Op Res) where
  pure := .done
  bind := bind

/-- One call. -/
def perform (op : Op) : Program Op Res (Res op) := .call op .done

/-- Every call the program can make is in `A`. -/
def Uses (A : Op → Prop) : Program Op Res α → Prop
  | .done _ => True
  | .call op next => A op ∧ ∀ r, (next r).Uses A

variable {A : Op → Prop}

theorem uses_perform {op : Op} (h : A op) : (perform op : Program Op Res (Res op)).Uses A :=
  ⟨h, fun _ => trivial⟩

/-- The calls of two programs in a row. -/
theorem Uses.bind : ∀ {p : Program Op Res α} {f : α → Program Op Res β}, p.Uses A →
    (∀ a, (f a).Uses A) → (p >>= f).Uses A
  | .done a, _, _, hf => hf a
  | .call _ _, _, hp, hf => ⟨hp.1, fun r => Uses.bind (hp.2 r) hf⟩

theorem Uses.ite {c : Prop} [Decidable c] {p q : Program Op Res α} (hp : c → p.Uses A)
    (hq : ¬c → q.Uses A) : (if c then p else q).Uses A := by
  by_cases hc : c
  · rw [if_pos hc]
    exact hp hc
  · rw [if_neg hc]
    exact hq hc

/-- The first of two programs in a row makes its calls. -/
theorem Uses.left : ∀ {p : Program Op Res α} {f : α → Program Op Res β}, (p >>= f).Uses A →
    p.Uses A
  | .done _, _, _ => trivial
  | .call _ _, _, h => ⟨h.1, fun r => Uses.left (h.2 r)⟩

/-! ## Runs -/

/-- **A run to its end**, where the environment gives the answers in `R`: the calls with their
answers, and the result. There is no result if the program stops at a call without any answer. -/
def Ends (R : ∀ op, Res op → Prop) : Program Op Res α → List (Sigma Res) → Option α → Prop
  | .done a, events, result => events = [] ∧ result = some a
  | .call op next, events, result =>
    IsEmpty (Res op) ∧ events = [] ∧ result = none ∨
      ∃ r rest, events = ⟨op, r⟩ :: rest ∧ R op r ∧ (next r).Ends R rest result

variable {R : ∀ op, Res op → Prop} {events : List (Sigma Res)}

theorem ends_pure {a : α} {result : Option α} :
    (pure a : Program Op Res α).Ends R events result ↔ events = [] ∧ result = some a := Iff.rfl

/-- A call that has an answer, and what follows. -/
theorem ends_perform {op : Op} [Nonempty (Res op)] {f : Res op → Program Op Res β}
    {result : Option β} : (perform op >>= f).Ends R events result ↔
      ∃ r rest, events = ⟨op, r⟩ :: rest ∧ R op r ∧ (f r).Ends R rest result :=
  or_iff_right fun h => not_isEmpty_of_nonempty _ h.1

/-- A call that has none. -/
theorem ends_stuck {op : Op} (h : IsEmpty (Res op)) {next : Res op → Program Op Res α}
    {result : Option α} : (call op next).Ends R events result ↔ events = [] ∧ result = none := by
  constructor
  · rintro (⟨-, hrest⟩ | ⟨r, -⟩)
    · exact hrest
    · exact h.elim r
  · exact fun hrest => .inl ⟨h, hrest⟩

/-- **The runs of two programs in a row**: the second one goes on where the first one ended, unless
the first one stopped. -/
theorem ends_bind_iff {f : α → Program Op Res β} {result : Option β} : ∀ {p : Program Op Res α}
    {events : List (Sigma Res)}, (p >>= f).Ends R events result ↔
      (∃ before rest a, events = before ++ rest ∧ p.Ends R before (some a) ∧
        (f a).Ends R rest result) ∨ result = none ∧ p.Ends R events none
  | .done a, events => by
    constructor
    · exact fun h => .inl ⟨[], events, a, rfl, ⟨rfl, rfl⟩, h⟩
    · rintro (⟨before, rest, b, rfl, ⟨rfl, hb⟩, h⟩ | ⟨-, -, hnone⟩)
      · rw [Option.some.inj hb] at h
        exact h
      · cases hnone
  | .call op next, events => by
    constructor
    · rintro (⟨hempty, rfl, rfl⟩ | ⟨r, rest, rfl, hr, h⟩)
      · exact .inr ⟨rfl, .inl ⟨hempty, rfl, rfl⟩⟩
      · rcases ends_bind_iff.mp h with ⟨before, rest', a, rfl, ha, hf⟩ | ⟨hnone, h⟩
        · exact .inl ⟨⟨op, r⟩ :: before, rest', a, rfl, .inr ⟨r, before, rfl, hr, ha⟩, hf⟩
        · exact .inr ⟨hnone, .inr ⟨r, rest, rfl, hr, h⟩⟩
    · rintro (⟨before, rest, a, rfl, h, hf⟩ | ⟨rfl, h⟩)
      · rcases h with ⟨-, -, hnone⟩ | ⟨r, before', rfl, hr, h⟩
        · cases hnone
        · exact .inr ⟨r, before' ++ rest, rfl, hr,
            ends_bind_iff.mpr (.inl ⟨before', rest, a, rfl, h, hf⟩)⟩
      · rcases h with ⟨hempty, rfl, -⟩ | ⟨r, rest, rfl, hr, h⟩
        · exact .inl ⟨hempty, rfl, rfl⟩
        · exact .inr ⟨r, rest, rfl, hr, ends_bind_iff.mpr (.inr ⟨rfl, h⟩)⟩

/-- The answers of a run are answers of the environment. -/
theorem Ends.answers : ∀ {p : Program Op Res α} {events : List (Sigma Res)} {result : Option α},
    p.Ends R events result → ∀ e ∈ events, R e.1 e.2
  | .done _, _, _, h, e, he => by
    rw [h.1] at he
    exact absurd he List.not_mem_nil
  | .call op next, _, _, h, e, he => by
    rcases h with ⟨-, rfl, -⟩ | ⟨r, rest, rfl, hr, h⟩
    · exact absurd he List.not_mem_nil
    · rcases List.mem_cons.mp he with rfl | he
      · exact hr
      · exact h.answers e he

/-- A run among some answers is one among more of them. -/
theorem Ends.mono {R' : ∀ op, Res op → Prop} (hR : ∀ op r, R op r → R' op r) :
    ∀ {p : Program Op Res α} {events : List (Sigma Res)} {result : Option α},
      p.Ends R events result → p.Ends R' events result
  | .done _, _, _, h => h
  | .call _ _, _, _, h => by
    rcases h with hstuck | ⟨r, rest, rfl, hr, h⟩
    · exact .inl hstuck
    · exact .inr ⟨r, rest, rfl, hR _ r hr, h.mono hR⟩

/-! ## Answers that depend on a state -/

/-- The calls of a run, where a call moves the state of the environment by `step`. -/
def Evolves {σ : Type} (step : σ → (op : Op) → Res op → σ → Prop) (s : σ) :
    List (Sigma Res) → σ → Prop
  | [], s' => s' = s
  | e :: events, s' => ∃ s₁, step s e.1 e.2 s₁ ∧ Evolves step s₁ events s'

theorem evolves_append {σ : Type} {step : σ → (op : Op) → Res op → σ → Prop} :
    ∀ {before rest : List (Sigma Res)} {s s' : σ}, Evolves step s (before ++ rest) s' ↔
      ∃ s₁, Evolves step s before s₁ ∧ Evolves step s₁ rest s'
  | [], _, s, s' => by simp [Evolves]
  | e :: before, rest, s, s' => by
    constructor
    · rintro ⟨s₁, hstep, h⟩
      obtain ⟨s₂, hbefore, hrest⟩ := evolves_append.mp h
      exact ⟨s₂, ⟨s₁, hstep, hbefore⟩, hrest⟩
    · rintro ⟨s₂, ⟨s₁, hstep, hbefore⟩, hrest⟩
      exact ⟨s₁, hstep, evolves_append.mpr ⟨s₂, hbefore, hrest⟩⟩

/-! ## Protocols -/

/-- What the users of an interface owe it: which calls are allowed in which state, and the state
behind an answer. -/
structure Protocol (Op : Type) (Res : Op → Type) (σ : Type) where
  allows : σ → Op → Prop
  move : σ → (op : Op) → Res op → σ

/-- **The program keeps to the protocol** from `s` on, and ends as `E` says. -/
def Keeps {σ : Type} (P : Protocol Op Res σ) (E : α → σ → Prop) : σ → Program Op Res α → Prop
  | s, .done a => E a s
  | s, .call op next => P.allows s op ∧ ∀ r, Keeps P E (P.move s op r) (next r)

section

variable {σ : Type} {P : Protocol Op Res σ} {E : α → σ → Prop} {s : σ}

/-- One call, and what follows. -/
theorem keeps_perform {op : Op} {f : Res op → Program Op Res α} (hallows : P.allows s op)
    (hf : ∀ r, Keeps P E (P.move s op r) (f r)) : Keeps P E s (perform op >>= f) :=
  ⟨hallows, hf⟩

/-- Two programs in a row. -/
theorem Keeps.bind {E' : β → σ → Prop} : ∀ {p : Program Op Res α} {f : α → Program Op Res β}
    {s : σ}, Keeps P E s p → (∀ a s, E a s → Keeps P E' s (f a)) → Keeps P E' s (p >>= f)
  | .done a, _, s, hp, hf => hf a s hp
  | .call _ _, _, _, hp, hf => ⟨hp.1, fun r => Keeps.bind (hp.2 r) hf⟩

theorem Keeps.ite {c : Prop} [Decidable c] {p q : Program Op Res α} (hp : c → Keeps P E s p)
    (hq : ¬c → Keeps P E s q) : Keeps P E s (if c then p else q) := by
  by_cases hc : c
  · rw [if_pos hc]
    exact hp hc
  · rw [if_neg hc]
    exact hq hc

end

end Program

end Lib
