/-!
# Labels in ASCII

A label with other characters than those of ASCII is written in ASCII: its own ASCII characters come
first, then, for each other character in the order of the code points, how far it is from the one before
it, where every place of every code point in between counts as a step. A distance is a number of base 36
whose digits end below a threshold that moves with the distances seen so far.
-/
namespace CoverageQuery.Punycode

def digitChar (d : Nat) : Char := Char.ofNat (if d < 26 then 'a'.toNat + d else '0'.toNat + (d - 26))

def digit? (c : Char) : Option Nat :=
  if c.isAlpha then some (c.toLower.toNat - 'a'.toNat)
  else if c.isDigit then some (c.toNat - '0'.toNat + 26)
  else none

/-- Below which a digit is the last of its number. -/
def threshold (bias weight : Nat) : Nat := max 1 (min 26 (weight - bias))

theorem threshold_pos (bias weight : Nat) : 0 < threshold bias weight := by
  unfold threshold
  omega

def bounded (bias delta : Nat) : Nat :=
  if 455 < delta then bounded (bias + 36) (delta / 35) else bias + 36 * delta / (delta + 38)
termination_by delta
decreasing_by exact Nat.div_lt_self (by omega) (by omega)

def adapt (delta count : Nat) (first : Bool) : Nat :=
  let delta := delta / if first then 700 else 2
  bounded 0 (delta + delta / count)

def distance (bias weight n : Nat) : List Char :=
  let t := threshold bias weight
  if n < t then [digitChar n]
  else digitChar (t + (n - t) % (36 - t)) :: distance bias (weight + 36) ((n - t) / (36 - t))
termination_by n
decreasing_by
  have hpos := threshold_pos bias weight
  calc (n - threshold bias weight) / (36 - threshold bias weight)
      ≤ n - threshold bias weight := Nat.div_le_self _ _
    _ < n := by omega

def isAscii (c : Char) : Bool := c.toNat < 128

structure Writer where
  written : List Char
  next : Nat
  delta : Nat
  bias : Nat
  count : Nat

def Writer.pass (ascii code : Nat) (w : Writer) (c : Char) : Writer :=
  if c.toNat < code then { w with delta := w.delta + 1 }
  else if c.toNat = code then
    { w with
      written := w.written ++ distance w.bias 36 w.delta
      delta := 0
      bias := adapt w.delta (w.count + 1) (w.count = ascii)
      count := w.count + 1 }
  else w

def Writer.round (label : List Char) (ascii : Nat) (w : Writer) (code : Nat) : Writer :=
  let w := { w with delta := w.delta + (code - w.next) * (w.count + 1) }
  let w := label.foldl (Writer.pass ascii code) w
  { w with delta := w.delta + 1, next := code + 1 }

def encode (label : List Char) : List Char :=
  let ascii := label.filter isAscii
  let codes := ((label.filter (!isAscii ·)).map Char.toNat).mergeSort.eraseDups
  let start := if ascii.isEmpty then [] else ascii ++ ['-']
  (codes.foldl (Writer.round label ascii.length) ⟨start, 128, 0, 72, ascii.length⟩).written

structure Reader where
  known : List Char
  code : Nat
  place : Nat
  bias : Nat
  /-- The distance so far, and how much the next digit counts. -/
  distance : Nat
  factor : Nat
  weight : Nat

def Reader.insert? (r : Reader) : Option Reader := do
  let count := r.known.length + 1
  let steps := r.place + r.distance
  let code := r.code + steps / count
  guard (steps < Nat.pow 2 32 ∧ Nat.isValidChar code)
  pure {
    known := r.known.insertIdx (steps % count) (Char.ofNat code)
    code
    place := steps % count + 1
    bias := adapt r.distance count (r.place = 0)
    distance := 0
    factor := 1
    weight := 36 }

def Reader.digit? (r : Reader) (c : Char) : Option Reader := do
  let d ← Punycode.digit? c
  let t := threshold r.bias r.weight
  let r := { r with distance := r.distance + d * r.factor }
  if d < t then r.insert?
  else pure { r with factor := r.factor * (36 - t), weight := r.weight + 36 }

def decode? (text : List Char) : Option (List Char) := do
  let ascii := ((text.reverse.dropWhile (· ≠ '-')).drop 1).reverse
  let rest := if ascii.isEmpty then text else text.drop (ascii.length + 1)
  let r ← rest.foldlM Reader.digit? ⟨ascii, 128, 0, 72, 0, 1, 36⟩
  guard (r.weight = 36)
  pure r.known

end CoverageQuery.Punycode
