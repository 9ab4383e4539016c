import CoverageQuery.Document.Record
import CoverageQuery.Json.Value
import CoverageQuery.Query.Domain

/-!
# Stored coordinates, expressions and subsets

In a document a number is a number and a text is a text: whole numbers of sixty-four bits with sign
are integers, all other numbers are floating, a coordinate's text is quoted text and an expression's is
raw, and a raw coordinate is a mapping with the one entry `raw`. Nothing else is a coordinate or an
expression. A subset and a constructor are records.
-/
namespace CoverageQuery

open Document

def Document.Scalar.quantity? : Scalar → Option Quantity
  | .integer n =>
    match Integer.toInt64? n with
    | some k => some (.integer k)
    | none => some (.float (Binary64.ofInt n))
  | .float x => some (.float x)
  | _ => none

/-- A kind of value that a document does not name: a number, a text, or what a mapping gives. -/
structure Untagged (α : Type) where
  expected : String
  ofQuantity : Quantity → α
  ofText : String → α
  ofMapping : Node → Reading α

namespace Untagged

variable {α : Type} (u : Untagged α)

def noAlternative : Reading α := fail (.noAlternative u.expected)

def ofBuffered (n : Node) : Reading α :=
  match n with
  | .scalar (.text t) _ _ => .ok (u.ofText t)
  | .scalar v _ _ =>
    match v.quantity? with
    | some k => .ok (u.ofQuantity k)
    | none => u.noAlternative
  | .mapping .. =>
    match u.ofMapping n with
    | .ok a => .ok a
    | .error _ => u.noAlternative
  | _ => u.noAlternative

def read (n : Node) : Reading α := do
  let m ← n.buffer
  u.ofBuffered m

end Untagged

namespace Coordinate

def rawRecord : Record (Option String) Coordinate where
  expected := "struct variant Coordinate::Raw"
  slots := [⟨"raw", Node.text, id, fun t _ => some t⟩]
  empty := none
  finish s := match s with
    | some t => .ok (.raw t)
    | none => .error 0

def untagged : Untagged Coordinate := ⟨"Coordinate", ofQuantity, text, rawRecord.readMapping .buffered⟩

def ofNode (n : Node) : Reading Coordinate := untagged.read n

def toJson : Coordinate → Json
  | integer n => .integer n.toInt
  | float x => .float x
  | raw t => .object [("raw", .string t)]
  | text t => .string t

end Coordinate

namespace Expression

def untagged : Untagged Expression :=
  ⟨"Expression", ofQuantity, raw, fun _ => fail (.noAlternative "Expression")⟩

def ofNode (n : Node) : Reading Expression := untagged.read n

def toJson : Expression → Json
  | integer n => .integer n.toInt
  | float x => .float x
  | raw t => .string t

end Expression

namespace Subset

structure Fields where
  axis : Option String
  start : Option Coordinate
  stop : Option (Option Coordinate)

def record : Record Fields Subset where
  expected := "struct AxisSubset"
  slots := [⟨"axis", Node.text, Fields.axis, fun a s => { s with axis := some a }⟩,
    ⟨"start", Coordinate.ofNode, Fields.start, fun c s => { s with start := some c }⟩,
    ⟨"stop", Node.optional Coordinate.ofNode, Fields.stop, fun c s => { s with stop := some c }⟩]
  empty := ⟨none, none, none⟩
  finish s := match s.axis, s.start with
    | none, _ => .error 0
    | _, none => .error 1
    | some axis, some start => .ok ⟨axis, start, s.stop.getD none⟩

def ofNode (dialect : Dialect) (n : Node) : Reading Subset := record.read dialect n

def toJson (s : Subset) : Json :=
  .object ([("axis", .string s.axis), ("start", s.start.toJson)]
    ++ Json.optionalEntry "stop" (s.stop.map Coordinate.toJson))

end Subset

namespace Constructor

structure Fields where
  name : Option String
  domain : Option (List Subset)
  values : Option String

def record (dialect : Dialect) : Record Fields Constructor where
  expected := "struct CoverageConstructor"
  slots := [⟨"name", Node.text, Fields.name, fun a s => { s with name := some a }⟩,
    ⟨"domain", Node.list (Subset.ofNode dialect), Fields.domain,
      fun d s => { s with domain := some d }⟩,
    ⟨"value_expression", Node.text, Fields.values, fun v s => { s with values := some v }⟩]
  empty := ⟨none, none, none⟩
  finish s := match s.name, s.domain, s.values with
    | none, _, _ => .error 0
    | _, none, _ => .error 1
    | _, _, none => .error 2
    | some name, some domain, some values => .ok ⟨name, domain, values⟩

def ofNode (dialect : Dialect) (n : Node) : Reading Constructor := (record dialect).read dialect n

def toJson (c : Constructor) : Json :=
  .object [("name", .string c.name), ("domain", .array (c.domain.map Subset.toJson)),
    ("value_expression", .string c.values)]

end Constructor
end CoverageQuery
