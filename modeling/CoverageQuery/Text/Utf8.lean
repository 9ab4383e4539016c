/-!
# Text in bytes

UTF-8 writes a character in one to four bytes. Reading finds, at each place, a character, a sequence
that no continuation can complete, or a sequence cut off by the end. An invalid sequence is as long as
the bytes that could still have begun a character. Strict reading stops at the first fault and says
where it is; lenient reading puts the replacement character in place of each fault.
-/
namespace CoverageQuery.Utf8

abbrev Bytes := List UInt8

inductive Item where
  | char (c : Char)
  | invalid (length : Nat)
  | truncated
  deriving DecidableEq, Repr

/-- How many bytes follow a leading byte, and the range of the first of them. -/
def continuation? (b : UInt8) : Option (Nat × UInt8 × UInt8) :=
  if 0xC2 ≤ b ∧ b ≤ 0xDF then some (1, 0x80, 0xBF)
  else if b = 0xE0 then some (2, 0xA0, 0xBF)
  else if b = 0xED then some (2, 0x80, 0x9F)
  else if 0xE1 ≤ b ∧ b ≤ 0xEF then some (2, 0x80, 0xBF)
  else if b = 0xF0 then some (3, 0x90, 0xBF)
  else if b = 0xF4 then some (3, 0x80, 0x8F)
  else if 0xF1 ≤ b ∧ b ≤ 0xF3 then some (3, 0x80, 0xBF)
  else none

def isContinuation (b : UInt8) : Bool := 0x80 ≤ b ∧ b ≤ 0xBF

def accepted (count : Nat) (low high : UInt8) (rest : Bytes) : Bytes :=
  match rest with
  | [] => []
  | b :: bs =>
    if low ≤ b ∧ b ≤ high then b :: (bs.take (count - 1)).takeWhile isContinuation else []

def leadBits (count : Nat) (b : UInt8) : Nat := b.toNat % Nat.pow 2 (6 - count)

def combine (bits : Nat) (following : Bytes) : Nat :=
  following.foldl (fun n b => n * 64 + b.toNat % 64) bits

def next (b : UInt8) (rest : Bytes) : Item × Bytes :=
  if b < 0x80 then (.char (Char.ofNat b.toNat), rest)
  else
    match continuation? b with
    | none => (.invalid 1, rest)
    | some (count, low, high) =>
      let following := accepted count low high rest
      if following.length = count then
        (.char (Char.ofNat (combine (leadBits count b) following)), rest.drop count)
      else if (rest.drop following.length).isEmpty then (.truncated, [])
      else (.invalid (1 + following.length), rest.drop following.length)

theorem length_next (b : UInt8) (rest : Bytes) : (next b rest).2.length ≤ rest.length := by
  unfold next
  split
  · simp
  · split
    · simp
    · dsimp only
      split
      · simp
      · split <;> simp

def items : Bytes → List Item
  | [] => []
  | b :: rest => (next b rest).1 :: items (next b rest).2
termination_by bytes => bytes.length
decreasing_by
  have := length_next b rest
  simp only [List.length_cons]
  omega

/-- Why bytes are no text: how many bytes before the fault are text, and the length of the invalid
sequence, or nothing when the end cuts a sequence off. -/
structure Fault where
  validUpTo : Nat
  length : Option Nat
  deriving DecidableEq, Repr

def Fault.message (f : Fault) : String :=
  match f.length with
  | some n =>
    "invalid utf-8 sequence of " ++ toString n ++ " bytes from index " ++ toString f.validUpTo
  | none => "incomplete utf-8 byte sequence from index " ++ toString f.validUpTo

def decodeItems (before : Nat) : List Item → Except Fault (List Char)
  | [] => .ok []
  | .char c :: rest => (decodeItems (before + c.utf8Size) rest).map (c :: ·)
  | .invalid n :: _ => .error ⟨before, some n⟩
  | .truncated :: _ => .error ⟨before, none⟩

def decode (bytes : Bytes) : Except Fault (List Char) := decodeItems 0 (items bytes)

def decode? (bytes : Bytes) : Option (List Char) := (decode bytes).toOption

def replacement : Char := Char.ofNat 0xFFFD

def Item.lenient : Item → Char
  | .char c => c
  | _ => replacement

def decodeLenient (bytes : Bytes) : List Char := (items bytes).map Item.lenient

def encode (cs : List Char) : Bytes := cs.flatMap String.utf8EncodeChar

def size : List Char → Nat
  | [] => 0
  | c :: cs => c.utf8Size + size cs

def takeBytes (limit : Nat) : List Char → List Char
  | [] => []
  | c :: cs => if c.utf8Size ≤ limit then c :: takeBytes (limit - c.utf8Size) cs else []

theorem size_takeBytes (limit : Nat) (cs : List Char) : size (takeBytes limit cs) ≤ limit := by
  induction cs generalizing limit with
  | nil => simp [takeBytes, size]
  | cons c cs ih =>
    unfold takeBytes
    split
    · have := ih (limit - c.utf8Size)
      simp only [size]
      omega
    · simp [size]

end CoverageQuery.Utf8
