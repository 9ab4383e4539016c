import CoverageQuery.Image.Png

/-!
# Bitmaps and icons

A bitmap has a header whose length tells its kind, then masks or a palette where its pixels need them.
A negative height means that rows go from top to bottom. An icon file lists images; the one with most
bits and then most pixels counts, and is a file of its own kind or a bitmap of twice the height.
-/
namespace CoverageQuery.Image.Bitmap

def number? := ByteOrder.little.number?

inductive Pixels where
  | colors
  | palette
  | masks (bits : Nat)
  deriving DecidableEq, Repr

def pixels? (compression bits : Nat) : Option Pixels :=
  match compression with
  | 0 =>
    if bits ∈ [1, 2, 4, 8] then some .palette
    else if bits ∈ [16, 24, 32] then some .colors
    else none
  | 1 => if bits = 8 then some .palette else none
  | 2 => if bits = 4 then some .palette else none
  | 3 => if bits = 16 ∨ bits = 32 then some (.masks bits) else none
  | _ => none

def isMask (bits mask : Nat) : Bool :=
  mask < Nat.pow 2 bits ∧ ∃ low ≤ bits, ∃ high ≤ bits, mask + Nat.pow 2 low = Nat.pow 2 high

def areMasks (bits red green blue opacity : Nat) : Bool :=
  [red, green, blue].all (fun mask => mask ≠ 0 ∧ isMask bits mask)
    ∧ (opacity = 0 ∨ isMask bits opacity)

/-- Whether the masks after a header are right; the older kinds have none for opacity. -/
def hasMasks (header : Bytes) (kind bits : Nat) : Bool :=
  match number? header 40 4, number? header 44 4, number? header 48 4 with
  | some red, some green, some blue =>
    if kind ≤ 52 then areMasks bits red green blue 0
    else (number? header 52 4).any (areMasks bits red green blue)
  | _, _, _ => false

def hasPalette (after : Bytes) (bits used entrySize : Nat) : Bool :=
  let entries := if used = 0 then Nat.pow 2 bits else used
  entries ≤ Nat.pow 2 bits ∧ min entries 256 * entrySize ≤ after.length

def coreSize? (header : Bytes) : Option Size := do
  let width ← number? header 4 2
  let height ← number? header 6 2
  let planes ← number? header 8 2
  let bits ← number? header 10 2
  guard (0 < width ∧ 0 < height ∧ planes = 1)
  guard (bits = 24 ∨ (bits ∈ [1, 4, 8] ∧ hasPalette (header.drop 12) bits 0 3))
  pure ⟨width, height⟩

def sideLimit : Int := 65535

def infoSize? (header : Bytes) (kind : Nat) : Option Size := do
  let width ← number? header 4 4
  let height ← number? header 8 4
  let planes ← number? header 12 2
  let bits ← number? header 14 2
  let compression ← number? header 16 4
  let used ← number? header 32 4
  let _ ← number? header 36 4
  let width := signed width
  let height := signed height
  guard (0 < width ∧ width ≤ sideLimit)
  guard (height ≠ 0 ∧ -(Nat.pow 2 31 : Int) < height ∧ height ≤ sideLimit)
  guard (planes = 1)
  guard (0 < height ∨ compression = 0 ∨ compression = 3)
  match ← pixels? compression bits with
  | .colors => pure ()
  | .palette => guard (hasPalette (header.drop kind) bits used 4)
  | .masks n => guard (hasMasks header kind n)
  pure ⟨width.toNat, height.natAbs⟩

def headerSize? (header : Bytes) : Option Size := do
  let kind ← number? header 0 4
  if kind = 12 then coreSize? header
  else if kind ∈ [40, 52, 56, 108, 124] then infoSize? header kind
  else none

def size? (bytes : Bytes) : Option Size := headerSize? (bytes.drop 14)

structure Entry where
  bits : Nat
  area : Nat
  offset : Nat
  deriving DecidableEq, Repr

def side (n : Nat) : Nat := if n = 0 then 256 else n

def entryAt? (bytes : Bytes) (index : Nat) : Option Entry := do
  let start := 6 + 16 * index
  let width ← number? bytes start 1
  let height ← number? bytes (start + 1) 1
  let planes ← number? bytes (start + 4) 2
  let bits ← number? bytes (start + 6) 2
  let offset ← number? bytes (start + 12) 4
  guard (planes ≤ 256 ∧ bits ≤ 256)
  pure ⟨bits, side width * side height, offset⟩

def Entry.isBetter (e best : Entry) : Bool :=
  best.bits < e.bits ∨ (best.bits = e.bits ∧ best.area < e.area)

/-- The best entry; of equals the last one, if it is among them, and else the first. -/
def best? (entries : List Entry) : Option Entry :=
  entries.getLast?.map fun last =>
    entries.dropLast.foldl (fun best e => if e.isBetter best then e else best) last

def imageSize? (image : Bytes) : Option Size := do
  let signature ← field? image 0 8
  if signature = Format.pngSignature then Png.size? image
  else (headerSize? image).map fun s => ⟨s.width, s.height / 2⟩

def iconSize? (bytes : Bytes) : Option Size := do
  let count ← number? bytes 4 2
  let entries ← (List.range count).mapM (entryAt? bytes)
  let best ← best? entries
  imageSize? (bytes.drop best.offset)

end CoverageQuery.Image.Bitmap
