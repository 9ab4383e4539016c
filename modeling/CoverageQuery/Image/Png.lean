import CoverageQuery.Image.Checksum
import CoverageQuery.Image.Format

/-!
# Portable network graphics

The file is a signature and chunks, each with its length, a kind of four letters, its content and a
check sum. The first chunk is the header. The size is known once the chunks up to the first one of
pixels are complete; a wrong check sum counts unless the chunk is ancillary, which a small first
letter says. The content of the pixels is never looked at.
-/
namespace CoverageQuery.Image.Png

def depths (color : Nat) : List Nat :=
  match color with
  | 0 => [1, 2, 4, 8, 16]
  | 2 | 4 | 6 => [8, 16]
  | 3 => [1, 2, 4, 8]
  | _ => []

def samples (color : Nat) : Nat :=
  match color with
  | 0 => 1
  | 4 => 2
  | 6 => 4
  | _ => 3

def rowLimit : Nat := 512 * Nat.pow 2 20

def header? (content : Bytes) : Option Size := do
  let width ← ByteOrder.big.number? content 0 4
  let height ← ByteOrder.big.number? content 4 4
  let depth ← ByteOrder.big.number? content 8 1
  let color ← ByteOrder.big.number? content 9 1
  let compression ← ByteOrder.big.number? content 10 1
  let filter ← ByteOrder.big.number? content 11 1
  let interlace ← ByteOrder.big.number? content 12 1
  guard (0 < width ∧ 0 < height ∧ depth ∈ depths color)
  guard (compression = 0 ∧ filter = 0 ∧ interlace ≤ 1)
  guard (width * samples color * (if depth = 16 then 2 else 1) ≤ rowLimit)
  pure ⟨width, height⟩

def isSound (kind content : Bytes) (sum : Nat) : Bool :=
  (checksum (kind ++ content)).toNat = sum

def isAncillary (kind : Bytes) : Bool :=
  match kind with
  | letter :: _ => letter &&& 0x20 ≠ 0
  | [] => false

def isPixels (kind : Bytes) : Bool := kind = word "IDAT" ∨ kind = word "fdAT"

def isMisplaced (kind : Bytes) : Bool := kind = word "IHDR" ∨ kind = word "IEND"

/-- Whether complete chunks lead up to one of pixels. -/
def reachesPixels (bytes : Bytes) : Bool :=
  match bytes with
  | [] => false
  | b :: others =>
    match ByteOrder.big.number? (b :: others) 0 4, field? (b :: others) 4 4 with
    | some length, some kind =>
      if isPixels kind then true
      else if isMisplaced kind then false
      else
        match field? (b :: others) 8 length, ByteOrder.big.number? (b :: others) (8 + length) 4 with
        | some content, some sum =>
          (isSound kind content sum || isAncillary kind) && reachesPixels (others.drop (11 + length))
        | _, _ => false
    | _, _ => false
termination_by bytes.length
decreasing_by
  simp only [List.length_drop, List.length_cons]
  omega

def size? (bytes : Bytes) : Option Size := do
  let chunks := bytes.drop Format.pngSignature.length
  let length ← ByteOrder.big.number? chunks 0 4
  let kind ← field? chunks 4 4
  let content ← field? chunks 8 length
  let sum ← ByteOrder.big.number? chunks (8 + length) 4
  guard (kind = word "IHDR" ∧ isSound kind content sum)
  let size ← header? content
  guard (reachesPixels (chunks.drop (12 + length)))
  pure size

end CoverageQuery.Image.Png
