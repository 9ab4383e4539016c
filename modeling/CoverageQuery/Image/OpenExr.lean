import CoverageQuery.Image.Field

/-!
# OpenEXR files

An OpenEXR file starts with flags and with one header, or with several and an end mark. A header is a list
of attributes, each with a name, a type and a value, up to an end mark; attributes whose value is not of
their type are passed over. The size is that of the display window in the first header with colors, if all
headers are sound. Of their other attributes only those count that say how the pixels are stored.
-/
namespace CoverageQuery.Image.OpenExr

def number? := ByteOrder.little.number?

def text? (limit : Nat) (bytes : Bytes) : Option (Bytes × Bytes) := do
  let text := bytes.takeWhile (· ≠ 0)
  guard (text.length ≤ limit ∧ text.length < bytes.length)
  pure (text, bytes.drop (text.length + 1))

structure Attribute where
  name : Bytes
  type : Bytes
  value : Bytes
  deriving DecidableEq, Repr

def attribute? (limit : Nat) (bytes : Bytes) : Option (Attribute × Bytes) := do
  let (name, rest) ← text? limit bytes
  let (type, rest) ← text? limit rest
  let length ← number? rest 0 4
  guard (length < Nat.pow 2 31)
  let value ← field? rest 4 length
  pure (⟨name, type, value⟩, rest.drop (4 + length))

def listed? {α : Type} (read? : Bytes → Option (α × Bytes)) : Nat → Bytes → Option (List α × Bytes)
  | _, 0 :: rest => some ([], rest)
  | 0, _ => none
  | fuel + 1, bytes => do
    let (a, rest) ← read? bytes
    let (others, rest) ← listed? read? fuel rest
    pure (a :: others, rest)

abbrev Attributes := List Attribute

def attributes? (limit : Nat) (bytes : Bytes) : Option (Attributes × Bytes) :=
  listed? (attribute? limit) bytes.length bytes

/-- The value of an attribute; of several with its name the last counts. -/
def Attributes.value? {α : Type} (attributes : Attributes) (name type : String)
    (read? : Bytes → Option α) : Option α :=
  attributes.reverse.findSome? fun a =>
    if a.name = word name ∧ a.type = word type then read? a.value else none

structure Window where
  left : Int
  top : Int
  size : Size
  deriving DecidableEq, Repr

def window? (value : Bytes) : Option Window := do
  let x ← (number? value 0 4).map signed
  let y ← (number? value 4 4).map signed
  let x' ← (number? value 8 4).map signed
  let y' ← (number? value 12 4).map signed
  pure ⟨min x x', min y y', (max x x' + 1 - min x x').toNat, (max y y' + 1 - min y y').toNat⟩

def windowLimit : Int := Nat.pow 2 30 - 1

def Window.isSound (w : Window) : Bool :=
  -windowLimit < w.left ∧ w.left + w.size.width < windowLimit ∧
    -windowLimit < w.top ∧ w.top + w.size.height < windowLimit

def channel? (bytes : Bytes) : Option (Bytes × Bytes) := do
  let (name, rest) ← text? 256 bytes
  let type ← number? rest 0 4
  let linear ← number? rest 4 1
  let across ← number? rest 8 4
  let down ← number? rest 12 4
  guard (type ≤ 2 ∧ linear ≤ 1 ∧ across = 1 ∧ down = 1)
  pure (name, rest.drop 16)

def isUpTo : Bytes → Bytes → Bool
  | [], _ => true
  | _ :: _, [] => false
  | b :: rest, c :: rest' => b.toNat < c.toNat || (b == c && isUpTo rest rest')

def areOrdered (names : List Bytes) : Bool :=
  (names.zip (names.drop 1)).all fun (a, b) => isUpTo a b

def channels? (value : Bytes) : Option (List Bytes) := do
  let (names, _) ← listed? channel? value.length value
  pure names

def compression? (value : Bytes) : Option Nat := (number? value 0 1).filter (· ≤ 9)

def tiles? (value : Bytes) : Option Size := do
  let width ← number? value 0 4
  let height ← number? value 4 4
  let mode ← number? value 8 1
  guard (mode % 16 ≤ 2 ∧ mode / 16 ≤ 1)
  pure ⟨width, height⟩

def areTilesSound (tiles : Size) : Bool :=
  0 < tiles.width ∧ 0 < tiles.height ∧ (max tiles.width tiles.height : Int) < windowLimit

def isCount (attributes : Attributes) (name : String) : Bool :=
  (attributes.value? name "int" fun value => number? value 0 4).all (· < Nat.pow 2 31)

structure Header where
  display : Window
  channels : List Bytes
  isDeep : Bool
  name : Option Bytes
  deriving DecidableEq, Repr

def header? (tiled : Bool) (attributes : Attributes) : Option Header := do
  let display ← attributes.value? "displayWindow" "box2i" window?
  let content ← attributes.value? "dataWindow" "box2i" window?
  let channels ← attributes.value? "channels" "chlist" channels?
  let compression ← attributes.value? "compression" "compression" compression?
  let type := attributes.value? "type" "string" some
  guard (type.all fun t => t ∈ ["scanlineimage", "tiledimage", "deepscanline", "deeptile"].map word)
  let isDeep := type = some (word "deepscanline") ∨ type = some (word "deeptile")
  let hasTiles := type = some (word "tiledimage") ∨ type = some (word "deeptile") ∨
    (type = none ∧ tiled)
  if hasTiles then
    guard ((attributes.value? "tiles" "tiledesc" tiles?).any areTilesSound)
  guard (display.isSound ∧ content.isSound ∧ (isDeep → compression ≤ 2))
  guard (channels ≠ [] ∧ [] ∉ channels ∧ areOrdered channels)
  guard (isCount attributes "chunkCount" ∧ isCount attributes "maxSamplesPerPixel")
  pure ⟨display, channels, isDeep, attributes.value? "name" "string" some⟩

def Header.hasColors (h : Header) : Bool :=
  !h.isDeep ∧ (["R", "G", "B"].map word).all (· ∈ h.channels)

structure Flags where
  tiled : Bool
  longNames : Bool
  deep : Bool
  several : Bool
  deriving DecidableEq, Repr

/-- The flags of a file of the second version. Tiles are a flag of files with one flat header only. -/
def flags? (bytes : Bytes) : Option Flags := do
  let n ← number? bytes 4 4
  let flags : Flags := ⟨n.testBit 9, n.testBit 10, n.testBit 11, n.testBit 12⟩
  guard (n % 256 = 2 ∧ !n.testBit 8 ∧ n < Nat.pow 2 13)
  guard (flags.tiled → ¬flags.deep ∧ ¬flags.several)
  pure flags

def headers? (flags : Flags) (bytes : Bytes) : Option (List Header) := do
  let limit := if flags.longNames then 255 else 31
  if flags.several then
    let (all, _) ← listed? (attributes? limit) bytes.length bytes
    all.mapM (header? false)
  else
    let (only, _) ← attributes? limit bytes
    let header ← header? flags.tiled only
    pure [header]

def size? (bytes : Bytes) : Option Size := do
  let flags ← flags? bytes
  let headers ← headers? flags (bytes.drop 8)
  guard (headers.length ≤ 1 ∨ (headers.map Header.name).Nodup)
  let header ← headers.find? Header.hasColors
  pure header.display.size

end CoverageQuery.Image.OpenExr
