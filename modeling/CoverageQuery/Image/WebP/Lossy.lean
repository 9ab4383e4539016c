import CoverageQuery.Image.Field

/-!
# Pictures with loss

A picture with loss has a plain header with its size and a coded one, followed by the coefficients in
one or more partitions. Every sequence of bits stands for coefficients, so only the headers and the
partitions have to be sound.
-/
namespace CoverageQuery.Image.WebP.Lossy

def bits (bytes : Bytes) : List Bool :=
  bytes.flatMap fun b => (List.range 8).map fun i => b.toNat.testBit (7 - i)

/-- A reader of arithmetically coded bits. The next bit is one if the value is in the upper part of
the range. -/
structure Coder where
  value : Nat
  range : Nat
  rest : List Bool

namespace Coder

def start : Bytes → Coder
  | [] => ⟨0, 255, []⟩
  | b :: rest => ⟨b.toNat, 255, bits rest⟩

def widen (c : Coder) : Coder :=
  if c.range < 128 then ⟨2 * c.value + (c.rest.headD false).toNat, 2 * c.range, c.rest.tail⟩ else c

def bit : StateM Coder Bool := fun c =>
  let split := (c.range - 1) / 2 + 1
  if split ≤ c.value then (true, widen { c with value := c.value - split, range := c.range - split })
  else (false, widen { c with range := split })

def number : Nat → Nat → StateM Coder Nat
  | 0, n => pure n
  | count + 1, n => do
    let b ← bit
    number count (2 * n + b.toNat)

def passFields (width : Nat) : Nat → StateM Coder Unit
  | 0 => pure ()
  | count + 1 => do
    if ← bit then
      let _ ← number width 0
    passFields width count

end Coder

open Coder (bit number passFields)

/-- Pass over how the picture is divided: four strengths of quantization and four of smoothing, each
with a sign, and three probabilities. -/
def passSegments : StateM Coder Unit := do
  let mapped ← bit
  let changed ← bit
  if changed then
    let _ ← bit
    passFields 8 4
    passFields 7 4
  if mapped then passFields 8 3

def passCorrections : StateM Coder Unit := do
  if ← bit then passFields 7 8

def partitionCount : StateM Coder (Option Nat) := do
  let space ← bit
  let _ ← bit
  if ← bit then passSegments
  let _ ← number 10 0
  if ← bit then passCorrections
  let exponent ← number 2 0
  pure (if space then none else some (Nat.pow 2 exponent))

/-- Whether a coded part has as many bytes as its reader starts with. -/
def canStart (part : Bytes) : Bool := 2 ≤ part.length

def arePartitions : List Nat → Bytes → Bool
  | [], bytes => canStart bytes
  | length :: lengths, bytes =>
    2 ≤ length && length ≤ bytes.length && arePartitions lengths (bytes.drop length)

def size? (bytes : Bytes) : Option Size := do
  let number? := ByteOrder.little.number? bytes
  let tag ← number? 0 3
  let mark ← field? bytes 3 3
  let width ← number? 6 2
  let height ← number? 8 2
  let header ← field? bytes 10 (tag / 32)
  guard (tag % 2 = 0 ∧ mark = [0x9D, 0x01, 0x2A] ∧ canStart header)
  let count ← (partitionCount.run (Coder.start header)).1
  let table := 10 + tag / 32
  let lengths ← (List.range (count - 1)).mapM fun i => number? (table + 3 * i) 3
  guard (arePartitions lengths (bytes.drop (table + 3 * lengths.length)))
  pure ⟨width % 16384, height % 16384⟩

end CoverageQuery.Image.WebP.Lossy
