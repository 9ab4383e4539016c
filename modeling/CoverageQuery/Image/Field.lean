import CoverageQuery.Text.Utf8

/-!
# Fields of binary files

A binary file holds numbers at fixed offsets, most or least significant byte first. A field is there
only if the file has all of its bytes.
-/
namespace CoverageQuery.Image

export Utf8 (Bytes)

structure Size where
  width : Nat
  height : Nat
  deriving DecidableEq, Repr

inductive ByteOrder where
  | big
  | little
  deriving DecidableEq, Repr

def ByteOrder.number (order : ByteOrder) (bytes : Bytes) : Nat :=
  match order with
  | big => bytes.foldl (fun n b => 256 * n + b.toNat) 0
  | little => bytes.foldr (fun b n => b.toNat + 256 * n) 0

def field? (bytes : Bytes) (offset length : Nat) : Option Bytes :=
  let part := (bytes.drop offset).take length
  if part.length = length then some part else none

theorem length_of_field? {bytes part : Bytes} {offset length : Nat}
    (h : field? bytes offset length = some part) :
    part.length = length ∧ (0 < length → offset + length ≤ bytes.length) := by
  simp only [field?, Option.ite_none_right_eq_some, Option.some.injEq] at h
  obtain ⟨hl, rfl⟩ := h
  refine ⟨hl, fun hpos => ?_⟩
  simp only [List.length_take, List.length_drop] at hl
  omega

def ByteOrder.number? (order : ByteOrder) (bytes : Bytes) (offset length : Nat) : Option Nat :=
  (field? bytes offset length).map order.number

def signed (n : Nat) : Int := if n < Nat.pow 2 31 then n else (n : Int) - Nat.pow 2 32

def word (text : String) : Bytes := Utf8.encode text.toList

/-- Whether so many pixels of so many bytes each can be counted in sixty-four bits. -/
def Size.isCountable (s : Size) (bytesPerPixel : Nat) : Bool :=
  s.width * s.height * bytesPerPixel < Nat.pow 2 64

end CoverageQuery.Image
