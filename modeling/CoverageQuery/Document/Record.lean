import CoverageQuery.Document.Node

/-!
# Records and choices in documents

A record has named fields in a fixed order. It is read from a mapping, whose other keys are passed
over, or, where the format allows, from a sequence that gives the fields in order. In a format that types
plain text on demand, nothing at all counts as a mapping without entries. Every field is read when it is
met, so of two faults the first in the document is reported; a field given twice and a required one that
is missing are faults of their own. A choice is one name out of a list.
-/
namespace CoverageQuery.Document

/-- A field of the partial record `σ`: how its value is read, and where it is kept. -/
structure Field (σ : Type) where
  name : String
  {Value : Type}
  read : Node → Reading Value
  get : σ → Option Value
  set : Value → σ → σ

/-- How a record of type `α` is read by way of the partial record `σ`. -/
structure Record (σ α : Type) where
  expected : String
  slots : List (Field σ)
  empty : σ
  /-- The record, or the index of the first required field that is missing. -/
  finish : σ → Except Nat α

inductive Key where
  | field (index : Nat)
  | other
  deriving DecidableEq, Repr

def Key.named (fields : List String) (name : String) : Key :=
  if fields.idxOf name < fields.length then .field (fields.idxOf name) else .other

/-- Which field a key names. A buffered key may also be the index of a field. -/
def Key.read (dialect : Dialect) (fields : List String) (n : Node) : Reading Key :=
  match dialect with
  | .streamed =>
    match n with
    | .scalar (.text s) _ _ => .ok (named fields s)
    | .unreadable failure _ => .error failure
    | _ => fail (.malformed "key must be a string")
  | .onDemand =>
    locate n.place? <|
      match n.bare with
      | .scalar v written _ =>
        .ok (named fields (written.getD (match v with | .text s => s | _ => "")))
      | m => .error (m.mismatch "field identifier")
  | .buffered =>
    match n with
    | .scalar (.text s) _ _ => .ok (named fields s)
    | .scalar (.integer k) _ _ =>
      if k < 0 then .error (n.mismatch "field identifier")
      else .ok (if k.toNat < fields.length then .field k.toNat else .other)
    | _ => .error (n.mismatch "field identifier")

namespace Record

variable {σ α : Type}

def fields (r : Record σ α) : List String := r.slots.map Field.name

def has (r : Record σ α) (s : σ) (i : Nat) : Bool := r.slots[i]?.any fun f => (f.get s).isSome

def put (r : Record σ α) (i : Nat) (n : Node) (s : σ) : Reading σ :=
  match r.slots[i]? with
  | some f => (f.read n).map fun v => f.set v s
  | none => .ok s

def fieldName (r : Record σ α) (i : Nat) : String := r.fields[i]?.getD ""

def putEntry (r : Record σ α) (dialect : Dialect) (s : σ) (entry : Node × Node) : Reading σ := do
  match ← Key.read dialect r.fields entry.1 with
  | .field i =>
    if r.has s i then fail (.duplicateField (r.fieldName i)) else r.put i entry.2 s
  | .other => entry.2.skip; pure s

def ofEntries (r : Record σ α) (dialect : Dialect) (entries : List (Node × Node))
    (stop : Option Failure) : Reading α := do
  let s ← entries.foldlM (r.putEntry dialect) r.empty
  Node.finished stop
  match r.finish s with
  | .ok a => pure a
  | .error i => fail (.missingField (r.fieldName i))

def sized (r : Record σ α) : String :=
  let count := r.fields.length
  r.expected ++ " with " ++ toString count ++ (if count = 1 then " element" else " elements")

def surplus (r : Record σ α) (dialect : Dialect) (count : Nat) : Fault :=
  let size := r.fields.length
  match dialect with
  | .buffered =>
    .invalidLength count (toString size ++ (if size = 1 then " element" else " elements")
      ++ " in sequence")
  | _ => .malformed "trailing characters"

def ofItems (r : Record σ α) (dialect : Dialect) (items : List Node) (stop : Option Failure) :
    Reading α := do
  let size := r.fields.length
  let s ← ((items.take size).zipIdx).foldlM (fun s (n, i) => r.put i n s) r.empty
  if items.length < size then Node.finished stop
  match r.finish s with
  | .error i => fail (.invalidLength i r.sized)
  | .ok a =>
    if size < items.length then fail (r.surplus dialect items.length)
    Node.finished stop
    pure a

/-- A record where scalars are typed on demand: from a mapping, from a vacant place, or from a text
that holds nothing. -/
def readOnDemand (r : Record σ α) (n : Node) : Reading α :=
  match n.bare with
  | .mapping entries stop _ => r.ofEntries .onDemand entries stop
  | .unreadable ⟨.unexpectedEnd, place⟩ _ => locate place (r.ofEntries .onDemand [] none)
  | m => if m.isVacant then r.ofEntries .onDemand [] none else .error (n.mismatch r.expected)

def readTyped (r : Record σ α) (dialect : Dialect) (n : Node) : Reading α :=
  match n with
  | .mapping entries stop _ => r.ofEntries dialect entries stop
  | .sequence items stop _ => r.ofItems dialect items stop
  | _ => .error (n.mismatch r.expected)

def read (r : Record σ α) (dialect : Dialect) (n : Node) : Reading α :=
  locate n.place? (if dialect = .onDemand then r.readOnDemand n else r.readTyped dialect n)

def readMapping (r : Record σ α) (dialect : Dialect) (n : Node) : Reading α :=
  match n with
  | .mapping entries stop _ => r.ofEntries dialect entries stop
  | _ => .error (n.mismatch r.expected)

end Record

def choose {α : Type} (choices : List (String × α)) (name : String) : Reading α :=
  match choices.lookup name with
  | some a => .ok a
  | none => fail (.unknownVariant name (choices.map Prod.fst))

def variantExpected : String := "variant identifier"

def variantName (dialect : Dialect) (n : Node) : Reading String :=
  locate n.place? <|
    match dialect, n.bare with
    | .onDemand, .scalar _ (some s) _ => .ok s
    | _, .scalar (.text s) _ _ => .ok s
    | _, m => .error (m.mismatch variantExpected)

/-- The value beside the name of a variant that has none: null, or an empty mapping in a buffer. -/
def unit (dialect : Dialect) (n : Node) : Reading Unit :=
  match dialect, n with
  | _, .scalar .null _ _ => .ok ()
  | .buffered, .mapping [] _ _ => .ok ()
  | _, m => .error (m.mismatch "unit")

/-- The variant that a key of a mapping names; a buffered key may also be its index. -/
def variantKey {α : Type} (dialect : Dialect) (choices : List (String × α)) (key : Node) :
    Reading α :=
  match dialect, key with
  | .buffered, .scalar (.integer k) _ _ =>
    if k < 0 then .error (key.mismatch variantExpected)
    else
      match choices[k.toNat]? with
      | some choice => .ok choice.2
      | none =>
        fail (.invalidValue (.integer k) ("variant index 0 <= i < " ++ toString choices.length))
  | _, _ => variantName dialect key >>= choose choices

def variant {α : Type} (dialect : Dialect) (choices : List (String × α)) (n : Node) : Reading α :=
  match dialect, n with
  | .onDemand, .tagged name m => do
    let a ← choose choices name
    unit dialect m
    pure a
  | .onDemand, .scalar .. => locate n.place? (variantName dialect n >>= choose choices)
  | .onDemand, _ => locate n.place? (.error (n.mismatch "a YAML tag starting with '!'"))
  | .streamed, .scalar (.text s) _ _ => choose choices s
  | .streamed, .mapping entries stop _ =>
    match entries with
    | [] => .error (stop.getD ⟨.malformed "expected value", none⟩)
    | (key, value) :: rest => do
      let a ← variantKey dialect choices key
      unit dialect value
      if rest.isEmpty then Node.finished stop else fail (.malformed "expected value")
      pure a
  | .streamed, .unreadable failure _ => .error failure
  | .streamed, _ => fail (.malformed "expected value")
  | .buffered, .scalar (.text s) _ _ => choose choices s
  | .buffered, .mapping [(key, value)] _ _ => do
    let a ← variantKey dialect choices key
    unit dialect value
    pure a
  | .buffered, .mapping .. => fail (.invalidValue .mapping "map with a single key")
  | .buffered, _ => .error (n.mismatch "string or map")

end CoverageQuery.Document
