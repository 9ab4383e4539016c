import CoverageQuery.Document.Fault

/-!
# Document trees

A document is a tree of scalars, sequences and mappings. Reading stops at the first fault that
matters, so the tree keeps what was found before a fault: a sequence or mapping that was never closed
says why, and a part that no value can be made of is unreadable. Some unreadable parts can still be
skipped, such as a number beyond every range. A scalar has a typed value; in a format where plain
text is typed only on demand it also has the text as written.
-/
namespace CoverageQuery.Document

inductive Scalar where
  | null
  | boolean (b : Bool)
  | integer (n : Int)
  | float (x : Binary64)
  | text (s : String)
  | unfit
  deriving DecidableEq, Repr

inductive Node where
  | scalar (value : Scalar) (written : Option String) (place : Option Place)
  | sequence (items : List Node) (stop : Option Failure) (place : Option Place)
  | mapping (entries : List (Node × Node)) (stop : Option Failure) (place : Option Place)
  | tagged (name : String) (node : Node)
  | unreadable (failure : Failure) (skippable : Bool)
  deriving Repr

/-- How a tree is read. A streamed tree comes from a format whose values have their types in the
text; a typed-on-demand tree takes any scalar as text; a buffered tree was read once already and
keeps only typed values. -/
inductive Dialect where
  | streamed
  | onDemand
  | buffered
  deriving DecidableEq, Repr

def Scalar.found : Scalar → Found
  | null => .null
  | boolean b => .boolean b
  | integer n => .integer n
  | float x => .float x
  | text s => .text s
  | unfit => .integer 0

namespace Node

instance : Inhabited Node := ⟨.scalar .null none none⟩

def place? : Node → Option Place
  | scalar _ _ p | sequence _ _ p | mapping _ _ p => p
  | tagged _ n => n.place?
  | unreadable .. => none

def bare : Node → Node
  | tagged _ n => n.bare
  | n => n

def mismatch (n : Node) (expected : String) : Failure :=
  match n.bare with
  | scalar v _ _ => ⟨.invalidType v.found expected, none⟩
  | sequence .. => ⟨.invalidType .sequence expected, none⟩
  | mapping .. => ⟨.invalidType .mapping expected, none⟩
  | unreadable failure _ => failure
  | tagged .. => ⟨.unsupportedTag, none⟩

def text (n : Node) : Reading String :=
  locate n.place? <|
    match n.bare with
    | scalar _ (some s) _ => .ok s
    | scalar (.text s) none _ => .ok s
    | _ => .error (n.mismatch "a string")

def boolean (n : Node) : Reading Bool :=
  locate n.place? <|
    match n.bare with
    | scalar (.boolean b) _ _ => .ok b
    | _ => .error (n.mismatch "a boolean")

def natBelow (limit : Nat) (expected : String) (n : Node) : Reading Nat :=
  locate n.place? <|
    match n.bare with
    | scalar (.integer k) _ _ =>
      if 0 ≤ k ∧ k < limit then .ok k.toNat else fail (.invalidValue (.integer k) expected)
    | _ => .error (n.mismatch expected)

def isNull (n : Node) : Bool :=
  match n with
  | scalar .null _ _ => true
  | _ => false

def optional {α : Type} (read : Node → Reading α) (n : Node) : Reading (Option α) :=
  if n.isNull then .ok none else (read n).map some

def isVacant (n : Node) : Bool :=
  match n with
  | scalar .null (some "") _ => true
  | _ => false

def finished (stop : Option Failure) : Reading Unit :=
  match stop with
  | none => .ok ()
  | some failure => .error failure

/-- All elements of a sequence, in order. A vacant place counts as a sequence without elements. -/
def list {α : Type} (read : Node → Reading α) (n : Node) : Reading (List α) :=
  locate n.place? <|
    match n.bare with
    | sequence items stop _ => do
      let values ← items.mapM read
      finished stop
      pure values
    | m => if m.isVacant then .ok [] else .error (n.mismatch "a sequence")

mutual

/-- Passes over a node whose value is not needed; it has to be well formed all the same. -/
def skip : Node → Reading Unit
  | scalar .. => .ok ()
  | sequence items stop _ => do skipItems items; finished stop
  | mapping entries stop _ => do skipEntries entries; finished stop
  | tagged _ n => skip n
  | unreadable failure skippable => if skippable then .ok () else .error failure

def skipItems : List Node → Reading Unit
  | [] => .ok ()
  | n :: rest => do skip n; skipItems rest

def skipEntries : List (Node × Node) → Reading Unit
  | [] => .ok ()
  | (k, v) :: rest => do skip k; skip v; skipEntries rest

end

mutual

/-- The node with typed values only, as it is kept until its type is known. -/
def buffer : Node → Reading Node
  | scalar .unfit _ p => locate p (fail .unfit)
  | scalar v _ _ => .ok (.scalar v none none)
  | sequence items stop _ => do
    let items ← bufferItems items
    finished stop
    pure (.sequence items none none)
  | mapping entries stop _ => do
    let entries ← bufferEntries entries
    finished stop
    pure (.mapping entries none none)
  | tagged _ n => locate n.place? (fail .unsupportedTag)
  | unreadable failure _ => .error failure

def bufferItems : List Node → Reading (List Node)
  | [] => .ok []
  | n :: rest => do
    let m ← buffer n
    let others ← bufferItems rest
    pure (m :: others)

def bufferEntries : List (Node × Node) → Reading (List (Node × Node))
  | [] => .ok []
  | (k, v) :: rest => do
    let key ← buffer k
    let value ← buffer v
    let others ← bufferEntries rest
    pure ((key, value) :: others)

end

end Node

structure Whole where
  root : Node
  trailing : Option Failure
  deriving Repr

def Whole.decode {α : Type} (read : Node → Reading α) (w : Whole) : Reading α := do
  let a ← read w.root
  Node.finished w.trailing
  pure a

theorem Whole.decode_eq_ok {α : Type} {read : Node → Reading α} {w : Whole} {a : α} :
    w.decode read = .ok a ↔ read w.root = .ok a ∧ w.trailing = none := by
  obtain ⟨root, trailing⟩ := w
  cases hr : read root <;> cases trailing <;>
    simp [decode, hr, Node.finished, bind, Except.bind, pure, Except.pure]

end CoverageQuery.Document
