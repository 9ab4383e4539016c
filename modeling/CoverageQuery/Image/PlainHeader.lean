import CoverageQuery.Image.Format

/-!
# Sizes in plain headers

Some formats give the size at a fixed place of their header: GIF files, whose palette has to be
complete, farbfeld and QOI files, and DDS textures, which are read only when they are compressed in
blocks of four by four pixels.
-/
namespace CoverageQuery.Image

/-- The size of a GIF file. Something has to follow the header and the palette. -/
def gifSize? (bytes : Bytes) : Option Size := do
  let width ← ByteOrder.little.number? bytes 6 2
  let height ← ByteOrder.little.number? bytes 8 2
  let flags ← ByteOrder.little.number? bytes 10 1
  let palette := if 128 ≤ flags then 3 * Nat.pow 2 (flags % 8 + 1) else 0
  guard (13 + palette < bytes.length)
  pure ⟨width, height⟩

def farbfeldSize? (bytes : Bytes) : Option Size := do
  let width ← ByteOrder.big.number? bytes 8 4
  let height ← ByteOrder.big.number? bytes 12 4
  guard (Size.isCountable ⟨width, height⟩ 8)
  pure ⟨width, height⟩

def qoiLimit : Nat := 400000000

def qoiSize? (bytes : Bytes) : Option Size := do
  let width ← ByteOrder.big.number? bytes 4 4
  let height ← ByteOrder.big.number? bytes 8 4
  let channels ← ByteOrder.big.number? bytes 12 1
  let space ← ByteOrder.big.number? bytes 13 1
  guard (channels = 3 ∨ channels = 4)
  guard (space ≤ 1 ∧ 0 < width * height ∧ width * height ≤ qoiLimit)
  pure ⟨width, height⟩

namespace Dds

def number? := ByteOrder.little.number?

def requiredFlags : UInt32 := 0x1007

def knownFlags : UInt32 := 0x8A100F

def bytesPerPixel (opaqueOnly : Bool) : Nat := if opaqueOnly then 3 else 4

/-- Whether an extended header names a block compression, and if so whether one without opacity. -/
def extended? (bytes : Bytes) : Option Bool := do
  let format ← number? bytes 128 4
  let dimension ← number? bytes 132 4
  let flag ← number? bytes 136 4
  let count ← number? bytes 140 4
  let flags ← number? bytes 144 4
  guard (2 ≤ dimension ∧ dimension ≤ 4 ∧ (flag = 0 ∨ flag = 4) ∧ flags ≤ 4)
  guard (dimension ≠ 4 ∨ count = 1)
  guard (70 ≤ format ∧ format ≤ 78)
  pure (format ≤ 72)

def compression? (bytes : Bytes) : Option Bool := do
  let code ← field? bytes 84 4
  if code = word "DXT1" then some true
  else if code = word "DXT3" ∨ code = word "DXT5" then some false
  else if code = word "DX10" then extended? bytes
  else none

def size? (bytes : Bytes) : Option Size := do
  let headerSize ← number? bytes 4 4
  let flags ← number? bytes 8 4
  let height ← number? bytes 12 4
  let width ← number? bytes 16 4
  let formatSize ← number? bytes 76 4
  let formatFlags ← number? bytes 80 4
  guard (headerSize = 124 ∧ formatSize = 32 ∧ 128 ≤ bytes.length)
  guard (UInt32.ofNat flags &&& (requiredFlags ||| ~~~knownFlags) = requiredFlags)
  guard (formatFlags / 4 % 2 = 1)
  let opaqueOnly ← compression? bytes
  guard (Size.isCountable ⟨width, height⟩ (bytesPerPixel opaqueOnly))
  guard (width % 4 = 0 ∧ height % 4 = 0)
  pure ⟨width, height⟩

end Dds
end CoverageQuery.Image
