import CoverageQuery.Image.WebP.BitReader

/-!
# Prefix codes

A prefix code is a tree whose leaves are the symbols; the bits of a symbol lead from the root to its
leaf. Files give only how many bits each symbol has. The code is then the one in which shorter codes
come first and symbols of one length are in order, so the leaves, read from left to right, are sorted by
length and symbol.
-/
namespace CoverageQuery.Image.WebP

inductive PrefixCode where
  | leaf (symbol : Nat)
  | node (zero one : PrefixCode)
  deriving DecidableEq, Repr

namespace PrefixCode

def read : PrefixCode → BitReader Nat
  | leaf symbol => pure symbol
  | node zero one => do
    let b ← BitReader.bit
    if b then one.read else zero.read

/-- The tree whose root is `depth` bits deep and whose leaves are the first of these lengths and
symbols, and the leaves that are left; no leaf is more than `fuel` bits below the root. -/
def build? : Nat → Nat → List (Nat × Nat) → Option (PrefixCode × List (Nat × Nat))
  | _, _, [] => none
  | fuel, depth, (length, symbol) :: rest =>
    if length ≤ depth then some (leaf symbol, rest)
    else
      match fuel with
      | 0 => none
      | fuel + 1 => do
        let (zero, rest) ← build? fuel (depth + 1) ((length, symbol) :: rest)
        let (one, rest) ← build? fuel (depth + 1) rest
        pure (node zero one, rest)

def longest : Nat := 15

def leaves (lengths : List Nat) : List (Nat × Nat) :=
  (List.range longest).flatMap fun n =>
    lengths.zipIdx.filter fun entry => entry.1 = n + 1

/-- The code with these lengths, where zero means that the symbol has none. A lone symbol takes no bits;
otherwise the lengths have to fill the tree. -/
def ofLengths? (lengths : List Nat) : Option PrefixCode :=
  match leaves lengths with
  | [(_, symbol)] => some (leaf symbol)
  | entries =>
    match build? longest 0 entries with
    | some (code, []) => some code
    | _ => none

end PrefixCode
end CoverageQuery.Image.WebP
