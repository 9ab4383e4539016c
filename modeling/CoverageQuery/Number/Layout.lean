import CoverageQuery.Number.Shortest

/-!
# Text of floating-point numbers

A number is written with the digits of its shortest decimal, either in positional form or, outside a
range of exponents, with one digit before the point and an exponent. A layout fixes that range, how a
whole number and an exponent are marked, and how ties between decimals go. The three layouts in use
are those of query texts, of result summaries and of stored descriptions. Reading takes a sign, digits
with an optional point on either side or within, an optional exponent, and the words for infinity and
"not a number" in any case.
-/
namespace CoverageQuery

structure NumberLayout where
  tie : Tie
  /-- The exponents of the leading digit that are written positionally; without a range all are. -/
  positional : Option (Int × Int)
  marksWhole : Bool
  signsExponent : Bool

namespace NumberLayout

/-- Numbers in a query text are positional from a ten-thousandth to below ten to the sixteenth. -/
def query : NumberLayout := ⟨.upper, some (-4, 15), true, false⟩

def summary : NumberLayout := ⟨.upper, none, false, false⟩

def stored : NumberLayout := ⟨.even, some (-5, 15), true, true⟩

def isPositional (l : NumberLayout) (exponent : Int) : Bool :=
  match l.positional with
  | none => true
  | some (low, high) => low ≤ exponent ∧ exponent ≤ high

def positionalText (l : NumberLayout) (digits : List Char) (point : Int) : List Char :=
  if point ≤ 0 then
    '0' :: '.' :: List.replicate (-point).toNat '0' ++ digits
  else if digits.length ≤ point.toNat then
    digits ++ List.replicate (point.toNat - digits.length) '0'
      ++ (if l.marksWhole then ['.', '0'] else [])
  else
    digits.take point.toNat ++ '.' :: digits.drop point.toNat

def exponentText (l : NumberLayout) (digits : List Char) (exponent : Int) : List Char :=
  let sign := if exponent < 0 then ['-'] else if l.signsExponent then ['+'] else []
  digits.take 1 ++ (if digits.length ≤ 1 then [] else '.' :: digits.drop 1)
    ++ 'e' :: sign ++ Digits.write exponent.natAbs

def significant (digits : List Char) : List Char :=
  (digits.reverse.dropWhile (· = '0')).reverse

def decimalText (l : NumberLayout) (d : Decimal) : List Char :=
  let all := Digits.write d.digits
  let point := d.exponent + all.length
  let digits := significant all
  if l.isPositional (point - 1) then l.positionalText digits point
  else l.exponentText digits (point - 1)

def magnitudeText (l : NumberLayout) (x : Magnitude) : List Char :=
  if x.mantissa = 0 then l.positionalText ['0'] 1
  else l.decimalText (x.shortest l.tie)

def signText (negative : Bool) : List Char :=
  if negative then ['-'] else []

def text (l : NumberLayout) : Binary64 → List Char
  | .nan => "NaN".toList
  | .infinite negative => signText negative ++ "inf".toList
  | .finite negative x => signText negative ++ l.magnitudeText x

def render (l : NumberLayout) (x : Binary64) : String :=
  String.ofList (l.text x)

end NumberLayout
end CoverageQuery
