import CoverageQuery.Number.Binary64

/-!
# Scaling by powers of ten

Products and quotients of magnitudes are rounded to the nearest magnitude. Scaling by a power of ten
within the range of magnitudes takes one of them. A smaller power takes more: the number is divided by
the greatest power of ten as often as needed, and each division rounds.
-/
namespace CoverageQuery.Magnitude

def times? (x y : Magnitude) : Option Magnitude := nearest? (x.num * y.num) (x.den * y.den)

def over? (x y : Magnitude) : Option Magnitude := nearest? (x.num * y.den) (x.den * y.num)

def greatestPower : Nat := 308

def powerOfTen (n : Nat) : Magnitude := (nearest? (Nat.pow 10 n) 1).getD zero

/-- Divides by the greatest power of ten so many times, unless zero is reached before. -/
def lower? : Nat → Magnitude → Option Magnitude
  | 0, x => some x
  | n + 1, x => if x = zero then some x else (x.over? (powerOfTen greatestPower)).bind (lower? n)

def scale? (x : Magnitude) (exponent : Int) : Option Magnitude :=
  let size := exponent.natAbs
  if 0 ≤ exponent then
    if size ≤ greatestPower then x.times? (powerOfTen size)
    else if x = zero then some x
    else none
  else
    let steps := (size - 1) / greatestPower
    (lower? steps x).bind fun y => y.over? (powerOfTen (size - greatestPower * steps))

end CoverageQuery.Magnitude
