import CoverageQuery.Image.Field

/-!
# Check sums

The cyclic redundancy check of thirty-two bits that guards the chunks of an image, least significant
bit first.
-/
namespace CoverageQuery.Image

def crcBit (n : UInt32) : UInt32 :=
  if n &&& 1 = 1 then (n >>> 1) ^^^ 0xEDB88320 else n >>> 1

def crcByte (n : UInt32) (b : UInt8) : UInt32 := Nat.repeat crcBit 8 (n ^^^ b.toUInt32)

def checksum (bytes : Bytes) : UInt32 := bytes.foldl crcByte 0xFFFFFFFF ^^^ 0xFFFFFFFF

end CoverageQuery.Image
