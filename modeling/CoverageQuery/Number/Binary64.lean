import CoverageQuery.Number.Digits

/-!
# Binary floating-point numbers of sixty-four bits

A finite number is a sign and a magnitude `mantissa * 2 ^ exponent` in units of `2 ^ (-1074)`. Every
magnitude has one representation: the exponent is zero, or the mantissa uses all of its fifty-three
bits. Two numbers are therefore equal exactly when their fields are, and zero keeps its sign. There
is one value for "not a number". All arithmetic on magnitudes is exact, on natural numbers.
-/
namespace CoverageQuery

structure Magnitude where
  mantissa : Nat
  exponent : Nat
  mantissa_lt : mantissa < Nat.pow 2 53
  normalized : exponent = 0 ∨ Nat.pow 2 52 ≤ mantissa
  exponent_le : exponent ≤ 2045
  deriving DecidableEq, Repr

inductive Binary64 where
  | nan
  | infinite (negative : Bool)
  | finite (negative : Bool) (magnitude : Magnitude)
  deriving DecidableEq, Repr

def roundHalfEven (num den : Nat) : Nat :=
  let quotient := num / den
  let rest := num % den
  if den < 2 * rest ∨ (den = 2 * rest ∧ quotient % 2 = 1) then quotient + 1 else quotient

namespace Magnitude

def zero : Magnitude := ⟨0, 0, by decide, .inl rfl, by decide⟩

instance : Inhabited Magnitude := ⟨zero⟩

def of? (mantissa exponent : Nat) : Option Magnitude :=
  if h : mantissa < Nat.pow 2 53 ∧ (exponent = 0 ∨ Nat.pow 2 52 ≤ mantissa) ∧ exponent ≤ 2045 then
    some ⟨mantissa, exponent, h.1, h.2.1, h.2.2⟩
  else none

def num (x : Magnitude) : Nat := x.mantissa * Nat.pow 2 (x.exponent - 1074)

def den (x : Magnitude) : Nat := Nat.pow 2 (1074 - x.exponent)

theorem den_pos (x : Magnitude) : 0 < x.den := Nat.two_pow_pos _

/-- The magnitude nearest to `num / den`, or nothing when that lies beyond the largest one. A mantissa
that rounds up to fifty-four bits is the smallest one of the next exponent. -/
def nearest? (num den : Nat) : Option Magnitude :=
  let exponent := Nat.log2 (num * Nat.pow 2 1074 / den) - 52
  let mantissa := roundHalfEven (num * Nat.pow 2 1074) (den * Nat.pow 2 exponent)
  if mantissa = Nat.pow 2 53 then of? (Nat.pow 2 52) (exponent + 1) else of? mantissa exponent

/-- The magnitude nearest to `digits * 10 ^ exponent`. Powers of ten outside the range of all
magnitudes are settled by the number of digits alone. -/
def ofDecimal? (digits : Nat) (exponent : Int) : Option Magnitude :=
  let point := exponent + Digits.count digits
  if digits = 0 ∨ point < -324 then some zero
  else if 310 < point then none
  else if 0 ≤ exponent then nearest? (digits * Nat.pow 10 exponent.toNat) 1
  else nearest? digits (Nat.pow 10 (-exponent).toNat)

end Magnitude

namespace Binary64

instance : Inhabited Binary64 := ⟨.nan⟩

def isFinite : Binary64 → Bool
  | finite .. => true
  | _ => false

def signed (negative : Bool) : Option Magnitude → Binary64
  | some magnitude => finite negative magnitude
  | none => infinite negative

def ofDecimal (negative : Bool) (digits : Nat) (exponent : Int) : Binary64 :=
  signed negative (Magnitude.ofDecimal? digits exponent)

def ofInt (n : Int) : Binary64 :=
  ofDecimal (n < 0) n.natAbs 0

end Binary64

end CoverageQuery
