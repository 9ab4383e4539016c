import CoverageQuery.Document.Node
import CoverageQuery.Number.Float

/-!
# Types of scalars

A plain scalar without a tag has the type that its text looks like: null, a boolean, a whole number in
base ten, sixteen, eight or two, a floating-point number, or else text. Digits after a leading zero are
text, and so are the usual words for numbers that are not finite, which have spellings of their own. A
standard tag asks for a type that the text has to fit; any other tag makes text of it.
-/
namespace CoverageQuery.Yaml

open Document (Scalar)

def isNullWord (cs : List Char) : Bool :=
  cs ∈ ["~".toList, "null".toList, "Null".toList, "NULL".toList]

def boolean? (cs : List Char) : Option Bool :=
  if cs ∈ ["true".toList, "True".toList, "TRUE".toList] then some true
  else if cs ∈ ["false".toList, "False".toList, "FALSE".toList] then some false
  else none

def isSign (c : Char) : Bool := c = '+' ∨ c = '-'

def hasLeadingZero (cs : List Char) : Bool :=
  match if cs.head?.any isSign then cs.tail else cs with
  | '0' :: rest => !rest.isEmpty && rest.all Char.isDigit
  | _ => false

def marked? (cs : List Char) : Option Nat :=
  match cs with
  | '0' :: 'x' :: rest => Digits.readBase? 16 rest
  | '0' :: 'o' :: rest => Digits.readBase? 8 rest
  | '0' :: 'b' :: rest => Digits.readBase? 2 rest
  | _ => none

def natural? (cs : List Char) : Option Nat :=
  (marked? cs).or (if hasLeadingZero cs then none else Digits.readBase? 10 cs)

def integer? (cs : List Char) : Option Int :=
  match cs with
  | '-' :: rest => (natural? rest).map fun n => -(n : Int)
  | '+' :: rest => (natural? rest).map Int.ofNat
  | _ => (natural? cs).map Int.ofNat

/-- The scalar of a whole number; none when it is beyond even the widest ones. -/
def integerScalar? (n : Int) : Option Scalar :=
  if -(Nat.pow 2 63 : Int) ≤ n ∧ n < Nat.pow 2 64 then some (.integer n)
  else if -(Nat.pow 2 127 : Int) ≤ n ∧ n < Nat.pow 2 128 then some .unfit
  else none

def isInfinityWord (cs : List Char) : Bool :=
  cs ∈ [".inf".toList, ".Inf".toList, ".INF".toList]

def isNanWord (cs : List Char) : Bool := cs ∈ [".nan".toList, ".NaN".toList, ".NAN".toList]

def float? (cs : List Char) : Option Binary64 :=
  let unsigned := match cs with
    | '+' :: rest => rest
    | _ => cs
  if isNanWord cs then some .nan
  else if isInfinityWord unsigned then some (.infinite false)
  else if cs.head? = some '-' ∧ isInfinityWord cs.tail then some (.infinite true)
  else if cs.head? = some '+' ∧ unsigned.head?.any isSign then none
  else Binary64.readFinite? unsigned

def plainValue (cs : List Char) : Scalar :=
  if cs.isEmpty ∨ isNullWord cs then .null
  else
    match boolean? cs with
    | some b => .boolean b
    | none =>
      match (integer? cs).bind integerScalar? with
      | some value => value
      | none =>
        match if hasLeadingZero cs then none else float? cs with
        | some x => .float x
        | none => .text (String.ofList cs)

def standardTag : List Char := "tag:yaml.org,2002:".toList

def taggedValue (tag cs : List Char) (isPlain : Bool) : Scalar :=
  if tag = standardTag ++ "null".toList then
    if isPlain ∧ isNullWord cs then .null else .unfit
  else if tag = standardTag ++ "bool".toList then
    match boolean? cs with
    | some b => .boolean b
    | none => .unfit
  else if tag = standardTag ++ "int".toList then
    ((integer? cs).bind integerScalar?).getD .unfit
  else if tag = standardTag ++ "float".toList then
    match float? cs with
    | some x => .float x
    | none => .unfit
  else .text (String.ofList cs)

def variantTag? (tag : Option (List Char)) : Option (List Char) :=
  match tag with
  | some ['!'] => some ['!']
  | some ('!' :: name) => some name
  | _ => none

def scalarValue (tag : Option (List Char)) (cs : List Char) (isPlain : Bool) : Scalar :=
  match tag with
  | some t =>
    if (variantTag? tag).isNone then taggedValue t cs isPlain
    else if isPlain then plainValue cs
    else .text (String.ofList cs)
  | none => if isPlain then plainValue cs else .text (String.ofList cs)

end CoverageQuery.Yaml
