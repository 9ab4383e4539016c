import CoverageQuery.Url.Punycode

/-!
# Domain names

A domain name is written in lower case and in ASCII. Upper case letters stand for lower case ones, some
characters for others, some for none at all, and some cannot be in a name; every other character stands
for itself. A label with characters outside ASCII is written in the form that marks it as such, and a
label with that mark has to be what some label is written as. Letters of the alphabets below have their
lower case here; the rest of the table of all characters is not.
-/
namespace CoverageQuery.Domain

def isWithin (n : Nat) (ranges : List (Nat × Nat)) : Bool :=
  ranges.any fun (first, last) => first ≤ n ∧ n ≤ last

def isIgnored (n : Nat) : Bool :=
  isWithin n [(0xAD, 0xAD), (0x180B, 0x180D), (0x200B, 0x200B), (0x2060, 0x2060), (0xFE00, 0xFE0F),
    (0xFEFF, 0xFEFF), (0xE0100, 0xE01EF)]

def isExcluded (n : Nat) : Bool :=
  isWithin n [(0x80, 0xA0), (0x1680, 0x1680), (0x2000, 0x200A), (0x200C, 0x200F), (0x2028, 0x202F),
    (0x205F, 0x206F), (0x3000, 0x3000), (0xE000, 0xF8FF), (0xFDD0, 0xFDEF), (0xFFF0, 0xFFFF),
    (0xE0000, 0x10FFFF)] ∨ 0xFFFE ≤ n % 0x10000

def evenPairs : List (Nat × Nat) :=
  [(0x100, 0x12F), (0x134, 0x137), (0x14A, 0x177), (0x460, 0x481), (0x48A, 0x4BF), (0x4D0, 0x52F),
    (0x1E00, 0x1E95), (0x1EA0, 0x1EFF)]

def oddPairs : List (Nat × Nat) := [(0x139, 0x13E), (0x141, 0x148), (0x179, 0x17E), (0x4C1, 0x4CE)]

def shifts : List (Nat × Nat × Nat) :=
  [(0xC0, 0xD6, 32), (0xD8, 0xDE, 32), (0x386, 0x386, 38), (0x388, 0x38A, 37), (0x38C, 0x38C, 64),
    (0x38E, 0x38F, 63), (0x391, 0x3A1, 32), (0x3A3, 0x3AB, 32), (0x400, 0x40F, 80), (0x410, 0x42F, 32),
    (0x4C0, 0x4C0, 15), (0x531, 0x556, 48)]

def lowered (n : Nat) : Nat :=
  if isWithin n evenPairs then n + (n + 1) % 2
  else if isWithin n oddPairs then n + n % 2
  else
    match shifts.find? fun (first, last, _) => first ≤ n ∧ n ≤ last with
    | some (_, _, distance) => n + distance
    | none => n

def others : List (Nat × String) :=
  [(0xAA, "a"), (0xB2, "2"), (0xB3, "3"), (0xB5, "\u03BC"), (0xB9, "1"), (0xBA, "o"),
    (0x130, "i\u0307"), (0x132, "ij"), (0x133, "ij"), (0x13F, "l\u00B7"), (0x140, "l\u00B7"),
    (0x149, "\u02BCn"), (0x178, "\u00FF"), (0x17F, "s"), (0x3002, "."), (0xFF0E, "."), (0xFF61, ".")]

def mapped? (c : Char) : Option (List Char) :=
  let n := c.toNat
  if n < 0x80 then some [c.toLower]
  else if isIgnored n then some []
  else if isExcluded n then none
  else if 0xFF01 ≤ n ∧ n ≤ 0xFF5E then some [(Char.ofNat (n - 0xFEE0)).toLower]
  else
    match others.lookup n with
    | some text => some text.toList
    | none => some [Char.ofNat (lowered n)]

def isForbidden (c : Char) : Bool :=
  c.toNat ≤ 0x20 ∨ c.toNat = 0x7F ∨ c ∈ "%#/:<>?@[\\]^|".toList

def mark : List Char := "xn--".toList

/-- Whether a marked label stands for a label with more than ASCII, and each of its characters for
itself. -/
def isMarked (label : List Char) : Bool :=
  match Punycode.decode? (label.drop mark.length) with
  | none => false
  | some known =>
    label.all Punycode.isAscii ∧ known.any (!Punycode.isAscii ·) ∧
      known.all fun c => mapped? c = some [c] ∧ !isForbidden c

def label? (label : List Char) : Option (List Char) :=
  if mark.isPrefixOf label then if isMarked label then some label else none
  else if label.all Punycode.isAscii then some label
  else some (mark ++ Punycode.encode label)

def read? (cs : List Char) : Option (List Char) := do
  let name := (← cs.mapM mapped?).flatten
  guard (!name.any isForbidden)
  let labels ← (name.splitOn '.').mapM label?
  pure (['.'].intercalate labels)

end CoverageQuery.Domain
