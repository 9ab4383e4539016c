import CoverageQuery.Number.Binary64

/-!
# Shortest decimals

The shortest decimal of a magnitude is the one with the fewest digits that reads back as it. On the
grid of decimals with a given number of digits only the two neighbours of the value can be the
answer: if any point of the grid reads back, one of them does. When both do, the nearer is taken, and
a caller decides an exact tie. Should no grid of up to seventeen digits have an answer, the exact
value is written out.
-/
namespace CoverageQuery

structure Decimal where
  digits : Nat
  exponent : Int
  deriving DecidableEq, Repr

inductive Tie where
  | upper
  | even
  deriving DecidableEq, Repr

namespace Magnitude

def readsBack (x : Magnitude) (d : Decimal) : Bool :=
  Magnitude.ofDecimal? d.digits d.exponent = some x

def exact (x : Magnitude) : Decimal :=
  ⟨x.num * Nat.pow 5 (1074 - x.exponent), -((1074 - x.exponent : Nat) : Int)⟩

/-- The place of the decimal point: the value is below `10 ^ point` and at least a tenth of that. -/
def point (x : Magnitude) : Int :=
  if x.den ≤ x.num then Digits.count (x.num / x.den)
  else
    let below := (x.den - 1) / x.num
    1 - (if below = 0 then 0 else Digits.count below)

/-- The neighbour of the value on the grid of `size` digits that reads back. -/
def onGrid? (tie : Tie) (x : Magnitude) (size : Nat) : Option Decimal :=
  let exponent := x.point - size
  let scaled := x.num * Nat.pow 10 (-exponent).toNat
  let unit := x.den * Nat.pow 10 exponent.toNat
  let low := scaled / unit
  let rest := scaled % unit
  let lower : Decimal := ⟨low, exponent⟩
  let upper : Decimal := ⟨low + 1, exponent⟩
  let preferUpper := unit < 2 * rest ∨ (unit = 2 * rest ∧ (tie = .upper ∨ low % 2 = 1))
  if x.readsBack lower then
    if x.readsBack upper ∧ preferUpper then some upper else some lower
  else if x.readsBack upper then some upper
  else none

def shortest (tie : Tie) (x : Magnitude) : Decimal :=
  ((List.range 17).findSome? fun i => x.onGrid? tie (i + 1)).getD x.exact

theorem readsBack_of_onGrid {tie : Tie} {x : Magnitude} {size : Nat} {d : Decimal}
    (h : x.onGrid? tie size = some d) : x.readsBack d = true := by
  unfold onGrid? at h
  grind

end Magnitude

end CoverageQuery
