import CoverageQuery.Image.WebP.PrefixCode

/-!
# Pictures without loss

A picture without loss is a header with its size, transformations, and pixels under prefix codes. It
has a size only if all of it can be read, so its pixels are decoded too; the colors matter where they
are data of their own, such as the choice of codes for each block.
-/
namespace CoverageQuery.Image.WebP.Lossless

open BitReader (bit number)

abbrev Color := UInt32

def color (alpha red green blue : Nat) : Color :=
  UInt32.ofNat (((alpha * 256 + red) * 256 + green) * 256 + blue)

structure Palette where
  bits : Nat
  colors : Array Color

def Palette.place (palette : Palette) (c : Color) : Nat :=
  (0x1E35A7BD * c).toNat / Nat.pow 2 (32 - palette.bits)

def Palette.keep (palette : Palette) (c : Color) : Palette :=
  { palette with colors := palette.colors.setIfInBounds (palette.place c) c }

def palette : BitReader (Option Palette) := do
  if ← bit then
    let bits ← number 4
    guard (1 ≤ bits ∧ bits ≤ 11)
    pure (some ⟨bits, Array.replicate (Nat.pow 2 bits) 0⟩)
  else pure none

/-- The codes of one kind of block. Green shares its code with lengths of copies and with places in the
palette. -/
structure Codes where
  green : PrefixCode
  red : PrefixCode
  blue : PrefixCode
  alpha : PrefixCode
  distance : PrefixCode

def shortCode (symbols : Nat) : BitReader PrefixCode := do
  let two ← bit
  let wide ← bit
  let first ← number (if wide then 8 else 1)
  guard (first < symbols)
  if two then
    let second ← number 8
    guard (second < symbols)
    pure (.node (.leaf first) (.leaf second))
  else pure (.leaf first)

def lengthOrder : List Nat := [17, 18, 0, 1, 2, 3, 4, 5, 16, 6, 7, 8, 9, 10, 11, 12, 13, 14, 15]

structure Lengths where
  reversed : List Nat
  previous : Nat

def Lengths.append (l : Lengths) (count length : Nat) : Lengths :=
  { l with reversed := List.replicate count length ++ l.reversed }

def nextLength (code : PrefixCode) (limit : Nat) (l : Lengths) : BitReader Lengths := do
  let symbol ← code.read
  if symbol < 16 then
    pure ⟨symbol :: l.reversed, if symbol = 0 then l.previous else symbol⟩
  else
    let count ←
      match symbol with
      | 16 => (· + 3) <$> number 2
      | 17 => (· + 3) <$> number 3
      | _ => (· + 11) <$> number 7
    guard (l.reversed.length + count ≤ limit)
    pure (l.append count (if symbol = 16 then l.previous else 0))

def nextLengths (code : PrefixCode) (limit : Nat) : Nat → Lengths → BitReader Lengths
  | 0, l => pure l
  | count + 1, l =>
    if l.reversed.length < limit then do
      let l ← nextLength code limit l
      nextLengths code limit count l
    else pure l

def entryCount (symbols : Nat) : BitReader Nat := do
  if ← bit then
    let width ← number 3
    let count ← number (2 + 2 * width)
    guard (count + 2 ≤ symbols)
    pure (count + 2)
  else pure symbols

def lengthsOfLengths : BitReader (List Nat) := do
  let count ← number 4
  let places := lengthOrder.take (count + 4)
  let lengths ← places.mapM fun _ => number 3
  pure ((List.range lengthOrder.length).map fun i => ((places.zip lengths).lookup i).getD 0)

def prefixCode (symbols : Nat) : BitReader PrefixCode := do
  if ← bit then shortCode symbols
  else
    let code ← PrefixCode.ofLengths? (← lengthsOfLengths)
    let count ← entryCount symbols
    let l ← nextLengths code symbols count ⟨[], 8⟩
    PrefixCode.ofLengths? l.reversed.reverse

def codes (palette : Option Palette) : BitReader Codes := do
  let places := (palette.map fun p => p.colors.size).getD 0
  let green ← prefixCode (280 + places)
  let red ← prefixCode 256
  let blue ← prefixCode 256
  let alpha ← prefixCode 256
  let distance ← prefixCode 40
  pure ⟨green, red, blue, alpha, distance⟩

def extent (kind : Nat) : BitReader Nat :=
  if kind < 4 then pure (kind + 1)
  else do
    let width := (kind - 2) / 2
    let beyond ← number width
    pure ((2 + kind % 2) * Nat.pow 2 width + beyond + 1)

/-- The distances of columns: none, then by turns to the left and to the right, and the farthest to the
left only. -/
def columns : List Int :=
  0 :: (List.range 7).flatMap (fun n : Nat => [(n : Int) + 1, -(n : Int) - 1]) ++ [8]

/-- How far pixels near another are to its left and above it, the nearest first. Of equally near ones
those further up come first, and the left one before the right one. -/
def neighbors : List (Int × Nat) :=
  let around := columns.flatMap fun left =>
    ((List.range 8).filter fun up => 0 < up ∨ 0 < left).map fun up => (left, up)
  (List.range 129).flatMap fun square : Nat =>
    around.filter fun offset => offset.1 * offset.1 + offset.2 * offset.2 = square

def pixelsBack (width code : Nat) : Nat :=
  match neighbors[code - 1]? with
  | some (left, up) => max 1 (left + up * width).toNat
  | none => code - neighbors.length

inductive Piece where
  | color (c : Color)
  | copy (back count : Nat)
  | recent (place : Nat)
  deriving DecidableEq, Repr

def piece (width : Nat) (codes : Codes) : BitReader Piece := do
  let symbol ← codes.green.read
  if symbol < 256 then
    let red ← codes.red.read
    let blue ← codes.blue.read
    let alpha ← codes.alpha.read
    pure (.color (color alpha red symbol blue))
  else if symbol < 280 then
    let count ← extent (symbol - 256)
    let code ← extent (← codes.distance.read)
    pure (.copy (pixelsBack width code) count)
  else pure (.recent (symbol - 280))

structure Canvas where
  pixels : Array Color
  palette : Option Palette

namespace Canvas

def push (canvas : Canvas) (c : Color) : Canvas :=
  ⟨canvas.pixels.push c, canvas.palette.map (·.keep c)⟩

def copy (back : Nat) : Nat → Canvas → Canvas
  | 0, canvas => canvas
  | count + 1, canvas =>
    copy back count (canvas.push (canvas.pixels.getD (canvas.pixels.size - back) 0))

def add? (canvas : Canvas) (total : Nat) : Piece → Option Canvas
  | .color c => some (canvas.push c)
  | .copy back count =>
    if back ≤ canvas.pixels.size ∧ canvas.pixels.size + count ≤ total then
      some (copy back count canvas)
    else none
  | .recent place => do
    let palette ← canvas.palette
    let c ← palette.colors[place]?
    pure (canvas.push c)

end Canvas

/-- All pixels of a picture; `codesAt?` gives the codes for a pixel. Every piece adds a pixel, so `fuel`
need not exceed their number. -/
def pixels (width total : Nat) (codesAt? : Nat → Option Codes) : Nat → Canvas → BitReader (Array Color)
  | 0, canvas => pure canvas.pixels
  | fuel + 1, canvas =>
    if canvas.pixels.size < total then do
      let codes ← codesAt? canvas.pixels.size
      let piece ← piece width codes
      let canvas ← canvas.add? total piece
      pixels width total codesAt? fuel canvas
    else pure canvas.pixels

def plane (size : Size) : BitReader (Array Color) := do
  let palette ← palette
  let codes ← codes palette
  let total := size.width * size.height
  pixels size.width total (fun _ => some codes) total ⟨#[], palette⟩

def blocks (length exponent : Nat) : Nat := (length + Nat.pow 2 exponent - 1) / Nat.pow 2 exponent

def blockSize (size : Size) (exponent : Nat) : Size :=
  ⟨blocks size.width exponent, blocks size.height exponent⟩

/-- By which power of two a row is shorter when its pixels are places in a table of so many colors. -/
def packing (colors : Nat) : Nat :=
  if colors ≤ 2 then 3 else if colors ≤ 4 then 2 else if colors ≤ 16 then 1 else 0

def transformation (kind : Nat) (size : Size) : BitReader Nat := do
  match kind with
  | 0 | 1 =>
    let exponent ← number 3
    let _ ← plane (blockSize size (exponent + 2))
    pure size.width
  | 2 => pure size.width
  | _ =>
    let colors := (← number 8) + 1
    let _ ← plane ⟨colors, 1⟩
    pure (blocks size.width (packing colors))

def transformations : Nat → List Nat → Size → BitReader Nat
  | 0, _, size => do
    guard !(← bit)
    pure size.width
  | fuel + 1, seen, size => do
    if ← bit then
      let kind ← number 2
      guard (kind ∉ seen)
      let width ← transformation kind size
      transformations fuel (kind :: seen) ⟨width, size.height⟩
    else pure size.width

structure Choice where
  exponent : Nat
  across : Nat
  blocks : Array Nat

def Choice.place? (choice : Choice) (width pixel : Nat) : Option Nat :=
  let side := Nat.pow 2 choice.exponent
  choice.blocks[pixel / width / side * choice.across + pixel % width / side]?

def Choice.count (choice : Choice) : Nat := choice.blocks.foldl max 0 + 1

def choice (size : Size) : BitReader (Option Choice) := do
  if ← bit then
    let exponent := (← number 3) + 2
    let blocks := blockSize size exponent
    let colors ← plane blocks
    pure (some ⟨exponent, blocks.width, colors.map fun c => c.toNat / 256 % 65536⟩)
  else pure none

def picture (size : Size) : BitReader (Array Color) := do
  let width ← transformations 4 [] size
  let palette ← palette
  let choice ← choice ⟨width, size.height⟩
  let sets ← (List.range ((choice.map Choice.count).getD 1)).mapM fun _ => codes palette
  let sets := sets.toArray
  let codesAt? := fun pixel =>
    match choice with
    | none => sets[0]?
    | some choice => (choice.place? width pixel).bind (sets[·]?)
  let total := width * size.height
  pixels width total codesAt? total ⟨#[], palette⟩

def sized : BitReader Size := do
  guard ((← number 8) = 0x2F)
  let width ← number 14
  let height ← number 14
  let _ ← bit
  guard ((← number 3) = 0)
  let size : Size := ⟨width + 1, height + 1⟩
  let _ ← picture size
  pure size

def size? (bytes : Bytes) : Option Size := (sized (bits bytes)).map Prod.fst

def hasPicture (bytes : Bytes) (size : Size) : Bool := (picture size (bits bytes)).isSome

end CoverageQuery.Image.WebP.Lossless
