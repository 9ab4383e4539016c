import CoverageQuery.Number.Binary64
import CoverageQuery.Number.Integer

/-!
# Floating-point numbers in text

Reading takes an optional sign, digits with an optional point before, after or among them, and an
optional exponent with a sign of its own; or, after the sign, one of the words `inf`, `infinity` and
`nan` in any case. The value is the number nearest to the decimal, so a text far beyond the range is
infinite and never an error. Reading finite numbers leaves the infinite ones and the words out.
-/
namespace CoverageQuery.Binary64

def splitPoint (cs : List Char) : List Char × List Char × List Char :=
  let whole := cs.takeWhile Char.isDigit
  match cs.dropWhile Char.isDigit with
  | '.' :: rest => (whole, rest.takeWhile Char.isDigit, rest.dropWhile Char.isDigit)
  | rest => (whole, [], rest)

def readExponent? : List Char → Option Int
  | [] => some 0
  | c :: cs => if c = 'e' ∨ c = 'E' then Integer.readInt? cs else none

def readUnsigned? (negative : Bool) (cs : List Char) : Option Binary64 :=
  let (whole, fraction, rest) := splitPoint cs
  if whole.isEmpty ∧ fraction.isEmpty then none
  else
    (readExponent? rest).map fun exponent =>
      ofDecimal negative (Digits.read (whole ++ fraction)) (exponent - fraction.length)

def readWord? (negative : Bool) (cs : List Char) : Option Binary64 :=
  let word := cs.map Char.toLower
  if word = "nan".toList then some .nan
  else if word = "inf".toList ∨ word = "infinity".toList then some (.infinite negative)
  else none

def read? (cs : List Char) : Option Binary64 :=
  let (negative, body) := Integer.splitSign cs
  (readUnsigned? negative body).or (readWord? negative body)

def readFinite? (cs : List Char) : Option Binary64 :=
  (read? cs).filter isFinite

end CoverageQuery.Binary64
