import CoverageQuery.Image.Format
import CoverageQuery.Number.Float
import CoverageQuery.Text.Blank

/-!
# Sizes in headers of text

Portable anymaps give their size as decimal numbers, with comments from a number sign to the end of the
line; the extensible kind has a line for each property. Radiance pictures have lines of properties, an
empty line and a line with the size.
-/
namespace CoverageQuery.Image

def splitLine (bytes : Bytes) : Bytes × Bytes :=
  (bytes.takeWhile (· ≠ 10), (bytes.dropWhile (· ≠ 10)).drop 1)

def words (cs : List Char) : List (List Char) :=
  (cs.splitOnP Text.isBlank).filter (!·.isEmpty)

namespace Anymap

def isBlank (b : UInt8) : Bool := b = 32 ∨ (9 ≤ b ∧ b ≤ 13)

/-- The next word of a header and what follows it. The state is whether a comment is over, and the
characters so far in reverse. -/
def word? : Bool → Bytes → Bytes → Option (Bytes × Bytes)
  | _, found, [] => if found.isEmpty then none else some (found.reverse, [])
  | outside, found, b :: rest =>
    let inText := outside ∧ b ≠ 35
    let next := inText ∨ b = 10 ∨ b = 13
    if inText then
      if isBlank b then if found.isEmpty then word? next [] rest else some (found.reverse, rest)
      else if b < 128 then word? next (b :: found) rest
      else none
    else word? next found rest

def asciiText (bytes : Bytes) : List Char := bytes.map fun b => Char.ofNat b.toNat

def number? (bytes : Bytes) : Option (Nat × Bytes) := do
  let (digits, rest) ← word? true [] bytes
  let n ← Integer.readUInt32? (asciiText digits)
  pure (n.toNat, rest)

def sampleBytes? (largest : Nat) : Option Nat :=
  if largest ≤ 255 then some 1 else if largest ≤ 65535 then some 2 else none

/-- The size in a header of numbers; all but black and white images name their largest value. -/
def plainSize? (kind : UInt8) (bytes : Bytes) : Option Size := do
  let (width, afterWidth) ← number? bytes
  let (height, afterHeight) ← number? afterWidth
  let samples := if kind = 51 ∨ kind = 54 then 3 else 1
  let size : Size := ⟨width, height⟩
  if kind = 49 ∨ kind = 52 then
    guard (size.isCountable 1)
    pure size
  else
    let (largest, _) ← number? afterHeight
    let sample ← sampleBytes? largest
    guard (size.isCountable (samples * sample))
    pure size

structure Properties where
  height : Option Nat
  width : Option Nat
  depth : Option Nat
  largest : Option Nat
  kind : Option (List Char)
  deriving DecidableEq, Repr

def once? (known : Option Nat) (text : List Char) : Option Nat :=
  if known.isSome then none
  else (Integer.readUInt32? (Text.trim text)).map UInt32.toNat

def Properties.put? (p : Properties) (name value : List Char) : Option Properties :=
  if name = "HEIGHT".toList then (once? p.height value).map fun n => { p with height := some n }
  else if name = "WIDTH".toList then (once? p.width value).map fun n => { p with width := some n }
  else if name = "DEPTH".toList then (once? p.depth value).map fun n => { p with depth := some n }
  else if name = "MAXVAL".toList then
    (once? p.largest value).map fun n => { p with largest := some n }
  else if name = "TUPLTYPE".toList then
    let kind := match p.kind with
      | none => Text.trim value
      | some known => known ++ ' ' :: Text.trim value
    some { p with kind := some kind }
  else none

def Properties.pixelBytes? (p : Properties) (depth largest : Nat) : Option Nat :=
  match p.kind with
  | none => if depth = 1 ∨ depth = 3 then some depth else none
  | some kind =>
    if kind = "BLACKANDWHITE".toList then
      if largest = 1 ∧ depth = 1 then some 1 else none
    else if kind = "GRAYSCALE".toList then
      if depth = 1 ∧ largest ≤ 255 then some 1
      else if depth ≤ 1 ∧ largest ≤ 65535 then some 2
      else none
    else if kind = "RGB".toList then
      if depth = 3 then (sampleBytes? largest).map (3 * ·) else none
    else none

def Properties.size? (p : Properties) : Option Size := do
  let height ← p.height
  let width ← p.width
  let depth ← p.depth
  let largest ← p.largest
  let pixel ← p.pixelBytes? depth largest
  let size : Size := ⟨width, height⟩
  guard (size.isCountable pixel)
  pure size

def lines? : Nat → Properties → Bytes → Option Size
  | 0, _, _ => none
  | fuel + 1, p, bytes =>
    let (line, rest) := splitLine bytes
    if bytes.isEmpty then none
    else if line.head? = some 35 then if (Utf8.decode? line).isSome then lines? fuel p rest else none
    else if line.any (128 ≤ ·) then none
    else
      let text := asciiText line
      let name := text.takeWhile (!Text.isBlank ·)
      if name = "ENDHDR".toList then p.size?
      else
        match p.put? name (text.dropWhile (!Text.isBlank ·)) with
        | some p => lines? fuel p rest
        | none => none

def size? (bytes : Bytes) : Option Size :=
  match bytes with
  | _ :: kind :: rest =>
    if kind = 55 then
      match rest with
      | 10 :: header => lines? header.length ⟨none, none, none, none, none⟩ header
      | _ => none
    else plainSize? kind rest
  | _ => none

end Anymap

namespace Radiance

def isProperty (line : List Char) : Bool :=
  match Text.splitOnce? '=' line with
  | none | some ([], _) | some (_, []) => true
  | some (key, value) =>
    let key := Text.trim key
    if key = "FORMAT".toList then Text.trim value = "32-bit_rle_rgbe".toList
    else if key = "EXPOSURE".toList ∨ key = "PIXASPECT".toList then
      (Binary64.read? (Text.trim value)).isSome
    else if key = "COLORCORR".toList then
      (words value).length = 3 ∧ (words value).all fun w => (Binary64.read? w).isSome
    else true

def dimensions? (line : List Char) : Option Size :=
  match words line with
  | [down, height, right, width] => do
    guard (down = "-Y".toList ∧ right = "+X".toList)
    let height ← Integer.readUInt32? height
    let width ← Integer.readUInt32? width
    let size : Size := ⟨width.toNat, height.toNat⟩
    guard (size.isCountable 3)
    pure size
  | _ => none

def lines? : Nat → Bytes → Option Size
  | 0, _ => none
  | fuel + 1, bytes =>
    let (line, rest) := splitLine bytes
    if bytes.isEmpty then none
    else if line.isEmpty then dimensions? (Utf8.decodeLenient (splitLine rest).1)
    else if line.head? = some 35 ∨ isProperty (Utf8.decodeLenient line) then lines? fuel rest
    else none

def size? (bytes : Bytes) : Option Size := lines? bytes.length (splitLine bytes).2

end Radiance
end CoverageQuery.Image
