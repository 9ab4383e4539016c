import CoverageQuery.Image.Field

/-!
# TIFF files

A TIFF file says in which order it writes its numbers and where its directory is: a list of tagged
entries, each with a type, a count and a value or the place of the values. The size is read together
with the properties of the pixels, which have to be gray, colored or printing colors of a common kind
in strips or tiles that cover the image.
-/
namespace CoverageQuery.Image.Tiff

structure Entry where
  tag : Nat
  type : Nat
  count : Nat
  place : Nat
  deriving DecidableEq, Repr

structure Directory where
  order : ByteOrder
  file : Bytes
  /-- The entries, last first: of two with one tag the last counts. -/
  entries : List Entry

def isType (n : Nat) : Bool := (1 ≤ n ∧ n ≤ 13) ∨ (16 ≤ n ∧ n ≤ 18)

def directory? (bytes : Bytes) : Option Directory := do
  let order := if bytes.head? = some 0x4D then ByteOrder.big else ByteOrder.little
  let start ← order.number? bytes 4 4
  let count ← order.number? bytes start 2
  let entries ← (List.range count).mapM fun i => do
    let place := start + 2 + 12 * i
    let tag ← order.number? bytes place 2
    let type ← order.number? bytes (place + 2) 2
    let count ← order.number? bytes (place + 4) 4
    let _ ← field? bytes (place + 8) 4
    pure (Entry.mk tag type count (place + 8))
  let _ ← field? bytes (start + 2 + 12 * count) 4
  pure ⟨order, bytes, (entries.filter fun e => isType e.type).reverse⟩

def valueBytes? (type : Nat) : Option Nat :=
  match type with
  | 1 => some 1
  | 3 => some 2
  | 4 | 13 => some 4
  | 16 => some 8
  | _ => none

namespace Directory

def find? (d : Directory) (tag : Nat) : Option Entry := d.entries.find? (·.tag = tag)

def has (d : Directory) (tag : Nat) : Bool := (d.find? tag).isSome

/-- The numbers of an entry; they stand in the entry itself if they take at most four bytes. -/
def values? (d : Directory) (e : Entry) : Option (List Nat) := do
  let size ← valueBytes? e.type
  let start ← if size * e.count ≤ 4 then some e.place else d.order.number? d.file e.place 4
  guard (size * e.count ≤ d.file.length)
  (List.range e.count).mapM fun i => d.order.number? d.file (start + size * i) size

def list? (d : Directory) (tag : Nat) (default : List Nat) : Option (List Nat) :=
  match d.find? tag with
  | none => some default
  | some e => d.values? e

def number? (d : Directory) (tag limit : Nat) (default : Option Nat) : Option Nat :=
  match d.find? tag with
  | none => default
  | some e =>
    match d.values? e with
    | some [n] => if n < limit then some n else none
    | _ => none

end Directory

def short : Nat := Nat.pow 2 16

def long : Nat := Nat.pow 2 32

def parts (length part : Nat) : Nat := (length + part - 1) / part

def hasStrips (d : Directory) (size : Size) (planes : Nat) : Bool :=
  match d.list? 273 [], d.list? 279 [], d.number? 278 long (some size.height) with
  | some offsets, some lengths, some rows =>
    0 < rows ∧ offsets.length = lengths.length ∧ offsets.length = parts size.height rows * planes
  | _, _, _ => false

def hasTiles (d : Directory) (size : Size) (planes : Nat) : Bool :=
  match d.list? 324 [], d.list? 325 [], d.number? 322 long none, d.number? 323 long none with
  | some offsets, some lengths, some width, some height =>
    0 < width ∧ 0 < height ∧ offsets.length = lengths.length
      ∧ offsets.length = parts size.width width * parts size.height height * planes
  | _, _, _, _ => false

def hasParts (d : Directory) (size : Size) (planes : Nat) : Bool :=
  match d.has 279, d.has 273, d.has 325, d.has 324 with
  | true, true, false, false => hasStrips d size planes
  | false, false, true, true => hasTiles d size planes
  | _, _, _, _ => false

def isPixel (kind samples bits : Nat) : Bool :=
  match kind with
  | 0 | 1 => samples = 1 ∧ (bits = 8 ∨ bits = 16)
  | 2 => (samples = 3 ∨ samples = 4) ∧ (bits = 8 ∨ bits = 16)
  | 5 => samples = 4 ∧ bits = 8
  | _ => false

def size? (bytes : Bytes) : Option Size := do
  let d ← directory? bytes
  let width ← d.number? 256 long none
  let height ← d.number? 257 long none
  let kind ← d.number? 262 short none
  let _ ← d.number? 259 short (some 1)
  let samples ← d.number? 277 short (some 1)
  let formats ← d.list? 339 [1]
  let bits ← d.list? 258 [1]
  let predictor ← d.number? 317 short (some 1)
  let planar ← d.number? 284 short (some 1)
  guard (0 < width ∧ 0 < height)
  guard (formats.all (· = 1))
  guard (bits.length = samples ∨ bits.length = 1)
  guard (bits.all fun b => b = bits.headD 0 ∧ b ≠ 0)
  guard (1 ≤ predictor ∧ predictor ≤ 3 ∧ 1 ≤ planar ∧ planar ≤ 2)
  guard (isPixel kind samples (bits.headD 0))
  guard (hasParts d ⟨width, height⟩ (if planar = 2 then samples else 1))
  pure ⟨width, height⟩

end CoverageQuery.Image.Tiff
