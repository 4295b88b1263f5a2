import Mathlib

/-!
# Bytes, machine integers and the ways a call can end

`char` data is `UInt8`. A `size_t` is a `Nat`; where the code narrows one to `int`, `toInt` is the
conversion, and `toSize` the one back. `Errno` keeps the error numbers the code compares with apart
from all others. A call `returns`, is ended by a `Fault`, or `diverges`.
-/

namespace SimpleHttpServer

/-- A run of `char`s. -/
abbrev Bytes := List UInt8

/-- The bytes of an ASCII literal. -/
def ascii (s : String) : Bytes := s.toList.map fun c => c.toNat.toUInt8

/-- `int x = n` for a `size_t` (or `uint32_t`) `n`: the low 32 bits, read as signed. -/
def toInt (n : Nat) : Int := (BitVec.ofNat 32 n).toInt

theorem toInt_of_lt {n : Nat} (h : n < 2 ^ 31) : toInt n = n := by
  unfold toInt
  rw [BitVec.toInt_ofNat', Int.bmod_eq_of_le (by omega) (by omega)]

/-- An `int` that is not negative has lost only high bits. -/
theorem toInt_le (n : Nat) : (toInt n).toNat ≤ n ∧ (toInt n).toNat < 2 ^ 31 := by
  unfold toInt
  rw [BitVec.toInt_ofNat', Int.bmod_def]
  omega

/-- An `int` as a `size_t`. -/
def toSize (x : Int) : Nat := (x % 2 ^ 64).toNat

theorem toSize_of_nonneg {n : Nat} (h : n < 2 ^ 64) : toSize n = n := by
  unfold toSize
  rw [Int.emod_eq_of_lt (by omega) (by omega)]
  exact Int.toNat_natCast n

/-- `errno` after a failed system call. -/
inductive Errno where
  | EWOULDBLOCK
  | EPIPE
  | ECONNRESET
  | other (code : Nat)
  deriving DecidableEq, Repr

/-- `Timestamp`: `microSecondsSinceEpoch_`. -/
structure Timestamp where
  microSecondsSinceEpoch : Int
  deriving DecidableEq, Repr

/-- What ends a call, and with it the process or the defined behaviour of the program. -/
inductive Fault where
  /-- An `assert` fails. -/
  | assertion
  /-- `std::stoi` throws `std::invalid_argument`. -/
  | invalidArgument
  /-- `std::stoi` throws `std::out_of_range`. -/
  | outOfRange
  /-- `std::string::assign` or `std::vector::resize` throws `std::length_error`. -/
  | lengthError
  /-- A read or a copy beyond the end of a vector. -/
  | overrun
  /-- `Buffer::append(std::string)` with a length that is negative as an `int`. -/
  | negativeCopy
  deriving DecidableEq, Repr

/-- How a call ends. -/
inductive Outcome (α : Type) where
  | returns (a : α)
  | faults (f : Fault)
  | diverges
  deriving DecidableEq

/-- The value of a call that returns. -/
def Outcome.value? {α : Type} : Outcome α → Option α
  | .returns a => some a
  | _ => none

/-- The fault of a call that ends in one. -/
def Outcome.fault? {α : Type} : Outcome α → Option Fault
  | .faults f => some f
  | _ => none

/-- A call that returns or faults, as an outcome. -/
def Outcome.ofExcept {α : Type} : Except Fault α → Outcome α
  | .ok a => .returns a
  | .error f => .faults f

end SimpleHttpServer
