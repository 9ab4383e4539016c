import CoverageQuery.Image.Field

/-!
# JPEG files

The file is a sequence of segments, each behind a marker. The size stands in the frame header; the
segments before it, which are tables, comments and data of applications, have to be well formed. Only
frames coded sequentially, progressively or without loss, with Huffman codes, have a readable header.
-/
namespace CoverageQuery.Image.Jpeg

/-- The code of the next marker and what follows it. A marker is a byte of ones and a code that is
neither zero nor all ones; bytes in front of it are passed over. -/
def marker? : Bool → Bytes → Option (UInt8 × Bytes)
  | _, [] => none
  | afterOnes, b :: rest =>
    if b = 0xFF then marker? true rest
    else if afterOnes ∧ b ≠ 0 then some (b, rest)
    else marker? false rest

def segment? (bytes : Bytes) : Option (Bytes × Bytes) := do
  let length ← ByteOrder.big.number? bytes 0 2
  guard (2 ≤ length)
  let content ← field? bytes 2 (length - 2)
  pure (content, bytes.drop length)

def isQuantizationTable (precision : Nat) (entries : Bytes) : Bool :=
  if precision = 0 then entries.all (· ≠ 0)
  else (List.range 64).all fun i => (ByteOrder.big.number? entries (2 * i) 2).any (· ≠ 0)

def areQuantizationTables (content : Bytes) : Bool :=
  match content with
  | [] => true
  | b :: rest =>
    let precision := b.toNat / 16
    let length := 64 * (precision + 1)
    if precision ≤ 1 ∧ b.toNat % 16 ≤ 3 ∧ length ≤ rest.length then
      isQuantizationTable precision (rest.take length) && areQuantizationTables (rest.drop length)
    else false
termination_by content.length
decreasing_by
  simp only [List.length_drop, List.length_cons]
  omega

/-- Whether codes of these lengths exist, given how many codes there are of each length from
`length + 1` up and the next free code of length `length`. -/
def isCode (length code : Nat) : List Nat → Bool
  | [] => true
  | count :: rest =>
    let first := 2 * code
    (count = 0 ∨ first + count ≤ Nat.pow 2 (length + 1)) && isCode (length + 1) (first + count) rest

def areHuffmanTables (content : Bytes) : Bool :=
  match content with
  | [] => true
  | b :: rest =>
    let counts := (rest.take 16).map UInt8.toNat
    let size := counts.foldl (· + ·) 0
    if b.toNat / 16 ≤ 1 ∧ b.toNat % 16 ≤ 3 ∧ 0 < size ∧ size ≤ 256 ∧ 16 + size ≤ rest.length then
      isCode 0 0 counts && areHuffmanTables (rest.drop (16 + size))
    else false
termination_by content.length
decreasing_by
  simp only [List.length_drop, List.length_cons]
  omega

def isColorNote (content : Bytes) : Bool :=
  if 12 ≤ content.length ∧ content.take 6 = word "Adobe" ++ [0] then
    (content.drop 11).head?.all (· ≤ 2)
  else true

def isTable (code : UInt8) (content : Bytes) : Bool :=
  if code = 0xDB then areQuantizationTables content
  else if code = 0xC4 then areHuffmanTables content
  else if code = 0xDD then content.length = 2
  else if code = 0xEE then isColorNote content
  else code = 0xFE ∨ (0xE0 ≤ code ∧ code ≤ 0xEF)

structure Component where
  identifier : UInt8
  horizontal : Nat
  vertical : Nat
  table : Nat
  deriving DecidableEq, Repr

def components : Bytes → List Component
  | identifier :: sampling :: table :: rest =>
    ⟨identifier, sampling.toNat / 16, sampling.toNat % 16, table.toNat⟩ :: components rest
  | _ => []

def fits (length largest factor : Nat) : Bool := factor = largest ∨ length = 1 ∨ 2 * factor = largest

def Component.isSound (c : Component) (lossless : Bool) : Bool :=
  (1 ≤ c.horizontal ∧ c.horizontal ≤ 4) ∧ (1 ≤ c.vertical ∧ c.vertical ≤ 4)
    ∧ c.table ≤ (if lossless then 0 else 3)

def Component.fitsIn (c : Component) (size : Size) (across down : Nat) : Bool :=
  (fits size.width across c.horizontal ∧ fits size.height down c.vertical)
    ∨ (across % c.horizontal = 0 ∧ down % c.vertical = 0)

def isPrecision (code : UInt8) (bits : Nat) : Bool := bits = 8 ∨ (code = 0xC3 ∧ bits = 16)

def frameSize? (code : UInt8) (content : Bytes) : Option Size := do
  let bits ← ByteOrder.big.number? content 0 1
  let height ← ByteOrder.big.number? content 1 2
  let width ← ByteOrder.big.number? content 3 2
  let count ← ByteOrder.big.number? content 5 1
  let size : Size := ⟨width, height⟩
  let parts := components (content.drop 6)
  let across := (parts.map Component.horizontal).foldl max 0
  let down := (parts.map Component.vertical).foldl max 0
  guard (isPrecision code bits ∧ 0 < height ∧ 0 < width)
  guard (count = 1 ∨ count = 3 ∨ count = 4)
  guard (content.length = 6 + 3 * count)
  guard (parts.map Component.identifier).Nodup
  guard (parts.all (·.isSound (code = 0xC3)))
  guard (parts.all (·.fitsIn size across down))
  pure size

def isFrame (code : UInt8) : Bool := 0xC0 ≤ code ∧ code ≤ 0xC3

def sizeWithin? : Nat → Bytes → Option Size
  | 0, _ => none
  | fuel + 1, bytes => do
    let (code, rest) ← marker? false bytes
    let (content, after) ← segment? rest
    if isFrame code then frameSize? code content
    else if isTable code content then sizeWithin? fuel after
    else none

def size? (bytes : Bytes) : Option Size := sizeWithin? bytes.length (bytes.drop 2)

end CoverageQuery.Image.Jpeg
