import CoverageQuery.Image.Field

/-!
# Bits of binary files

Packed files are read bit by bit. A reader takes bits from the front of what is left and fails when
there are too few.
-/
namespace CoverageQuery.Image.WebP

def bits (bytes : Bytes) : List Bool :=
  bytes.flatMap fun b => (List.range 8).map b.toNat.testBit

abbrev BitReader := StateT (List Bool) Option

namespace BitReader

def bit : BitReader Bool
  | [] => none
  | b :: rest => some (b, rest)

def number : Nat → BitReader Nat
  | 0 => pure 0
  | n + 1 => do
    let low ← bit
    let high ← number n
    pure (low.toNat + 2 * high)

end BitReader
end CoverageQuery.Image.WebP
