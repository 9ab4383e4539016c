import CoverageQuery.Number.Layout

/-!
# Why a document cannot be read

Reading a document into a value of the domain fails for one of a few causes: the text is not in its
format, a part of it has the wrong kind or a value out of range, a record misses a field, names one
twice or has too few elements, a name is none of a list of choices, or no alternative fits. The
wording of every cause is in one function. A failure may know the place of the part it concerns; the
first place that is attached stays.
-/
namespace CoverageQuery.Document

structure Place where
  line : Nat
  column : Nat
  deriving DecidableEq, Repr

def Place.isStart (p : Place) : Bool := p.line = 0 ∧ p.column = 0

inductive Found where
  | null
  | boolean (b : Bool)
  | integer (n : Int)
  | float (x : Binary64)
  | text (s : String)
  | sequence
  | mapping
  deriving DecidableEq, Repr

inductive Fault where
  | unexpectedEnd
  | malformed (problem : String)
  | invalidType (found : Found) (expected : String)
  | invalidValue (found : Found) (expected : String)
  | invalidLength (length : Nat) (expected : String)
  | missingField (name : String)
  | duplicateField (name : String)
  | unknownVariant (name : String) (choices : List String)
  | noAlternative (type : String)
  | unsupportedTag
  | unfit
  | severalDocuments
  deriving DecidableEq, Repr

def quote (s : String) : String := "`" ++ s ++ "`"

def Found.describe : Found → String
  | .null => "null"
  | .boolean b => "boolean " ++ quote (if b then "true" else "false")
  | .integer n => "integer " ++ quote (toString n)
  | .float x => "floating point " ++ quote (NumberLayout.stored.render x)
  | .text s => "string \"" ++ s ++ "\""
  | .sequence => "sequence"
  | .mapping => "map"

def choiceText (choices : List String) : String :=
  "expected one of " ++ ", ".intercalate (choices.map quote)

def Fault.message : Fault → String
  | unexpectedEnd => "EOF while parsing a value"
  | malformed problem => problem
  | invalidType found expected =>
    "invalid type: " ++ found.describe ++ ", expected " ++ expected
  | invalidValue found expected =>
    "invalid value: " ++ found.describe ++ ", expected " ++ expected
  | invalidLength length expected =>
    "invalid length " ++ toString length ++ ", expected " ++ expected
  | missingField name => "missing field " ++ quote name
  | duplicateField name => "duplicate field " ++ quote name
  | unknownVariant name choices =>
    "unknown variant " ++ quote name ++ ", " ++ choiceText choices
  | noAlternative type => "data did not match any variant of untagged enum " ++ type
  | unsupportedTag => "untagged and internally tagged enums do not support enum input"
  | unfit => "invalid type: integer beyond 64 bits, expected any value"
  | severalDocuments =>
    "deserializing from YAML containing more than one document is not supported"

def Fault.isMalformed : Fault → Bool
  | unexpectedEnd | malformed _ => true
  | _ => false

structure Failure where
  fault : Fault
  place : Option Place
  deriving DecidableEq, Repr

/-- The place as people count, from one; a failure at the very start of a text does not name it. -/
def Place.text (p : Place) : String :=
  if p.isStart then ""
  else " at line " ++ toString (p.line + 1) ++ " column " ++ toString (p.column + 1)

def Failure.text (f : Failure) : String :=
  f.fault.message ++ (f.place.map Place.text).getD ""

abbrev Reading := Except Failure

def fail {α : Type} (fault : Fault) : Reading α := .error ⟨fault, none⟩

def locate {α : Type} (place : Option Place) : Reading α → Reading α
  | .ok a => .ok a
  | .error e => .error ⟨e.fault, e.place.or place⟩

theorem locate_eq_ok {α : Type} {place : Option Place} {r : Reading α} {a : α} :
    locate place r = .ok a ↔ r = .ok a := by
  cases r <;> simp [locate]

end CoverageQuery.Document
