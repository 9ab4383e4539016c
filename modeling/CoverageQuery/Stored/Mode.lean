import CoverageQuery.Stored.Value
import CoverageQuery.Query.Basic

/-!
# Stored modes

Aggregations and encodings are stored by their names, in lower case only. A switch is a record of
cases and a default; on reading, cases flagged as the default set the default as if they were pushed
one by one. A mode is a mapping with the entry `kind` and, beside it in any order, the entries of that
kind; it may also be a sequence that starts with the kind. What stands beside the kind is buffered
until the kind is known.
-/
namespace CoverageQuery

open Document

namespace Aggregation

def ofNode (dialect : Dialect) (n : Node) : Reading Aggregation :=
  variant dialect (all.map fun m => (m.name, m)) n

def toJson (m : Aggregation) : Json := .string m.name

end Aggregation

namespace Encoding

def ofNode (dialect : Dialect) (n : Node) : Reading Encoding :=
  variant dialect (all.map fun e => (e.name, e)) n

def toJson (e : Encoding) : Json := .string e.name

end Encoding

namespace Case

structure Fields where
  isDefault : Option Bool
  condition : Option String
  result : Option Expression

def record : Record Fields Case where
  expected := "struct SwitchCase"
  slots := [⟨"is_default", Node.boolean, Fields.isDefault, fun b s => { s with isDefault := some b }⟩,
    ⟨"condition", Node.text, Fields.condition, fun t s => { s with condition := some t }⟩,
    ⟨"result", Expression.ofNode, Fields.result, fun e s => { s with result := some e }⟩]
  empty := ⟨none, none, none⟩
  finish s := match s.result with
    | none => .error 2
    | some result => .ok ⟨s.isDefault.getD false, s.condition.getD "", result⟩

def ofNode (dialect : Dialect) (n : Node) : Reading Case := record.read dialect n

def toJson (c : Case) : Json :=
  .object [("is_default", .boolean c.isDefault), ("condition", .string c.condition),
    ("result", c.result.toJson)]

end Case

namespace Switch

structure Fields where
  cases : Option (List Case)
  fallback : Option (Option Expression)

def record (dialect : Dialect) : Record Fields Switch where
  expected := "struct SwitchBlockRepr"
  slots := [⟨"cases", Node.list (Case.ofNode dialect), Fields.cases,
      fun cs s => { s with cases := some cs }⟩,
    ⟨"default", Node.optional Expression.ofNode, Fields.fallback,
      fun e s => { s with fallback := some e }⟩]
  empty := ⟨none, none⟩
  finish s := .ok (Switch.ofCases (s.fallback.getD none) (s.cases.getD []))

def ofNode (dialect : Dialect) (n : Node) : Reading Switch := (record dialect).read dialect n

def entries (s : Switch) : List (String × Json) :=
  ("cases", .array (s.branches.map fun b => b.toCase.toJson))
    :: Json.optionalEntry "default" (s.fallback.map Expression.toJson)

def toJson (s : Switch) : Json := .object s.entries

end Switch

namespace Mode

inductive Kind where
  | plain
  | aggregate
  | encode
  | switch
  deriving DecidableEq

def kinds : List (String × Kind) :=
  [("plain", .plain), ("aggregate", .aggregate), ("encode", .encode), ("switch", .switch)]

def kindField : String := "kind"

def expected : String := "internally tagged enum ReturnMode"

def oneField {α : Type} (name field : String) (read : Node → Reading α) (make : α → Mode) :
    Record (Option α) Mode where
  expected := "struct variant ReturnMode::" ++ name
  slots := [⟨field, read, id, fun a _ => some a⟩]
  empty := none
  finish s := match s with
    | some a => .ok (make a)
    | none => .error 0

def ofContent (kind : Kind) (content : Node) : Reading Mode :=
  match kind with
  | .plain => .ok .plain
  | .aggregate =>
    (oneField "Aggregate" "method" (Aggregation.ofNode .buffered) .aggregate).read .buffered content
  | .encode =>
    (oneField "Encode" "format" (Encoding.ofNode .buffered) .encode).read .buffered content
  | .switch => (Switch.ofNode .buffered content).map .switch

/-- The kind if it has been read, and the other entries, buffered, latest first. -/
structure Pending where
  kind : Option Kind
  entries : List (Node × Node)

def readKind (dialect : Dialect) (n : Node) : Reading Kind :=
  locate n.place? (variantName dialect n >>= choose kinds)

def isKindKey (n : Node) : Bool :=
  match n with
  | .scalar (.text s) _ _ => s = kindField
  | _ => false

def bufferKey (dialect : Dialect) (n : Node) : Reading Node :=
  match dialect, n with
  | .streamed, .scalar (.text _) _ _ => n.buffer
  | .streamed, .unreadable failure _ => .error failure
  | .streamed, _ => fail (.malformed "key must be a string")
  | _, _ => n.buffer

def readEntry (dialect : Dialect) (p : Pending) (entry : Node × Node) : Reading Pending := do
  if isKindKey entry.1 then
    if p.kind.isSome then fail (.duplicateField kindField)
    let kind ← readKind dialect entry.2
    pure { p with kind := some kind }
  else
    let key ← bufferKey dialect entry.1
    let value ← entry.2.buffer
    pure { p with entries := (key, value) :: p.entries }

def split (dialect : Dialect) (n : Node) : Reading (Kind × Node) := do
  match n with
  | .mapping entries stop _ =>
    let p ← entries.foldlM (readEntry dialect) ⟨none, []⟩
    Node.finished stop
    match p.kind with
    | some kind => pure (kind, .mapping p.entries.reverse none none)
    | none => fail (.missingField kindField)
  | .sequence [] stop _ =>
    Node.finished stop
    fail (.missingField kindField)
  | .sequence (first :: rest) stop _ =>
    let kind ← readKind dialect first
    let content ← Node.bufferItems rest
    Node.finished stop
    pure (kind, .sequence content none none)
  | .tagged .. => fail .unsupportedTag
  | _ => .error (n.mismatch expected)

def ofNode (dialect : Dialect) (n : Node) : Reading Mode := do
  let (kind, content) ← locate n.place? (split dialect n)
  ofContent kind content

def toJson : Mode → Json
  | plain => .object [(kindField, .string "plain")]
  | aggregate m => .object [(kindField, .string "aggregate"), ("method", m.toJson)]
  | encode f => .object [(kindField, .string "encode"), ("format", f.toJson)]
  | switch s => .object ((kindField, .string "switch") :: s.entries)

end Mode
end CoverageQuery
