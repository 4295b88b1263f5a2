import SimpleHttpServer.Basic

/-!
# Numbers in decimal

`decimal` is what `%d` and `%u` print for a number that is not negative, and `printInt` what `%d`
prints for any `int`. `digitsValue` reads digits back, so two numbers never print the same.
-/

namespace SimpleHttpServer

/-- `isdigit(c)`. -/
def isdigit (c : UInt8) : Bool := 48 ≤ c && c ≤ 57

/-- The value of a run of decimal digits. -/
def digitsValue (ds : Bytes) : Nat := ds.foldl (fun n d => 10 * n + (d.toNat - 48)) 0

/-- A number printed in decimal. -/
def decimal (n : Nat) : Bytes := (Nat.toDigits 10 n).map fun c => c.toNat.toUInt8

/-- The digits of a printed number are below 256, so they are bytes. -/
theorem toNat_of_mem_toDigits {n : Nat} {c : Char} (h : c ∈ Nat.toDigits 10 n) :
    48 ≤ c.toNat ∧ c.toNat ≤ 57 := by
  have hdig := Nat.isDigit_of_mem_toDigits (by omega) (by omega) h
  simpa [Char.isDigit, UInt32.le_iff_toNat_le] using hdig

theorem toNat_toUInt8 {n : Nat} (h : n ≤ 57) : n.toUInt8.toNat = n :=
  UInt8.toNat_ofNat_of_lt' (by unfold UInt8.size; omega)

theorem isdigit_of_mem_decimal {n : Nat} {d : UInt8} (h : d ∈ decimal n) : isdigit d = true := by
  obtain ⟨c, hc, rfl⟩ := List.mem_map.mp h
  obtain ⟨h₁, h₂⟩ := toNat_of_mem_toDigits hc
  simp only [isdigit, Bool.and_eq_true, decide_eq_true_eq, UInt8.le_iff_toNat_le,
    toNat_toUInt8 h₂]
  exact ⟨h₁, h₂⟩

theorem decimal_ne_nil (n : Nat) : decimal n ≠ [] := by
  simp [decimal, Nat.toDigits_ne_nil]

theorem digitsValue_decimal (n : Nat) : digitsValue (decimal n) = n := by
  have key : ∀ (cs : List Char) (k : Nat), (∀ c ∈ cs, c.toNat ≤ 57) →
      (cs.map fun c => c.toNat.toUInt8).foldl (fun n d => 10 * n + (d.toNat - 48)) k =
        Nat.ofDigitChars 10 cs k := by
    intro cs
    induction cs with
    | nil => intro k _; rfl
    | cons c cs ih =>
      intro k h
      rw [List.map_cons, List.foldl_cons, Nat.ofDigitChars_cons,
        toNat_toUInt8 (h c List.mem_cons_self)]
      exact ih _ fun d hd => h d (List.mem_cons_of_mem c hd)
  unfold digitsValue decimal
  rw [key _ _ fun c hc => (toNat_of_mem_toDigits hc).2]
  exact Nat.ofDigitChars_toDigits (by omega) (by omega)

/-- Two numbers never print the same. -/
theorem decimal_injective : Function.Injective decimal := fun m n h => by
  rw [← digitsValue_decimal m, h, digitsValue_decimal]

theorem length_decimal_le {n k : Nat} (hk : 0 < k) (h : n < 10 ^ k) : (decimal n).length ≤ k := by
  rw [decimal, List.length_map]
  exact (Nat.length_toDigits_le_iff (by omega) hk).mpr h

/-- `%d`. -/
def printInt (z : Int) : Bytes := if z < 0 then ascii "-" ++ decimal z.natAbs else decimal z.natAbs

theorem printInt_natCast (n : Nat) : printInt n = decimal n := by
  unfold printInt
  rw [if_neg (by omega)]
  rfl

end SimpleHttpServer
