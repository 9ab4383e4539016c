import CoverageQuery.Json.Value
import CoverageQuery.Number.Integer
import CoverageQuery.Number.Scaling
import CoverageQuery.Text.Blank

/-!
# Reading JSON

The reader turns a text into a document tree and never fails: where the text stops being JSON, the
tree has an unreadable node or an unfinished sequence or mapping, and nothing after it. Containers may
nest up to one level less than the room given; deeper ones, numbers beyond the range of floating point
and unpaired surrogates are unreadable but can be skipped. Whole numbers of sixty-four bits stay whole,
except for minus zero; every other number is floating, and it is rounded more than once: digits beyond
sixty-four bits are left out, and what they make is scaled by a power of ten.
-/
namespace CoverageQuery.Json

open Document

def isBlank (c : Char) : Bool := c = ' ' ∨ c = '\n' ∨ c = '\t' ∨ c = '\r'

def skipBlanks (cs : List Char) : List Char := cs.dropWhile isBlank

def stopAt (cs : List Char) : Failure :=
  ⟨if cs.isEmpty then .unexpectedEnd else .malformed "expected value", none⟩

def ended : Failure := ⟨.unexpectedEnd, none⟩

def malformed (problem : String) : Failure := ⟨.malformed problem, none⟩

inductive Piece where
  | char (c : Char)
  | code (n : Nat)
  deriving DecidableEq, Repr

def escaped? : Char → Option Char
  | '"' => some '"'
  | '\\' => some '\\'
  | '/' => some '/'
  | 'b' => some (Char.ofNat 8)
  | 'f' => some (Char.ofNat 12)
  | 'n' => some '\n'
  | 'r' => some '\r'
  | 't' => some '\t'
  | _ => none

def stringPieces : List Char → Except Failure (List Piece × List Char)
  | [] => .error ended
  | '"' :: rest => .ok ([], rest)
  | '\\' :: 'u' :: a :: b :: c :: d :: rest =>
    match Digits.readBase? 16 [a, b, c, d] with
    | some n => (stringPieces rest).map fun (pieces, after) => (.code n :: pieces, after)
    | none => .error (malformed "invalid escape")
  | ['\\'] => .error ended
  | '\\' :: e :: rest =>
    match escaped? e with
    | some c => (stringPieces rest).map fun (pieces, after) => (.char c :: pieces, after)
    | none => .error (if e = 'u' then ended else malformed "invalid escape")
  | c :: rest =>
    if c.toNat < 32 then .error (malformed "control character in a string")
    else (stringPieces rest).map fun (pieces, after) => (.char c :: pieces, after)

def assemble : List Piece → Option (List Char)
  | [] => some []
  | .char c :: rest => (assemble rest).map (c :: ·)
  | [.code n] => if 0xD800 ≤ n ∧ n < 0xE000 then none else some [Char.ofNat n]
  | .code n :: next :: rest =>
    if 0xD800 ≤ n ∧ n < 0xDC00 then
      match next with
      | .code m =>
        if 0xDC00 ≤ m ∧ m < 0xE000 then
          (assemble rest).map (Char.ofNat (0x10000 + (n - 0xD800) * 0x400 + (m - 0xDC00)) :: ·)
        else none
      | .char _ => none
    else if 0xDC00 ≤ n ∧ n < 0xE000 then none
    else (assemble (next :: rest)).map (Char.ofNat n :: ·)

def unpaired : Failure := malformed "lone surrogate in a string"

def readString (cs : List Char) : Node × Option (List Char) :=
  match stringPieces cs with
  | .error failure => (.unreadable failure false, none)
  | .ok (pieces, rest) =>
    match assemble pieces with
    | some text => (.scalar (.text (String.ofList text)) none none, some rest)
    | none => (.unreadable unpaired true, some rest)

structure Numeral where
  negative : Bool
  whole : List Char
  fraction : Option (List Char)
  exponent : Option Int
  deriving DecidableEq, Repr

def spanDigits (cs : List Char) : List Char × List Char :=
  (cs.takeWhile Char.isDigit, cs.dropWhile Char.isDigit)

def readWhole (cs : List Char) : Except Failure (List Char × List Char) :=
  let (digits, rest) := spanDigits cs
  match digits with
  | [] => .error (stopAt rest)
  | '0' :: _ :: _ => .error (malformed "invalid number")
  | _ => .ok (digits, rest)

def readFraction (cs : List Char) : Except Failure (Option (List Char) × List Char) :=
  match cs with
  | '.' :: after =>
    let (digits, rest) := spanDigits after
    if digits.isEmpty then .error (stopAt rest) else .ok (some digits, rest)
  | _ => .ok (none, cs)

def readExponent (cs : List Char) : Except Failure (Option Int × List Char) :=
  match cs with
  | c :: after =>
    if c = 'e' ∨ c = 'E' then
      let (negative, unsigned) := Integer.splitSign after
      let (digits, rest) := spanDigits unsigned
      if digits.isEmpty then .error (stopAt rest)
      else
        let n : Int := Digits.read digits
        .ok (some (if negative then -n else n), rest)
    else .ok (none, cs)
  | [] => .ok (none, cs)

def readNumeral (cs : List Char) : Except Failure (Numeral × List Char) := do
  let (negative, unsigned) := match cs with
    | '-' :: rest => (true, rest)
    | _ => (false, cs)
  let (whole, afterWhole) ← readWhole unsigned
  let (fraction, afterFraction) ← readFraction afterWhole
  let (exponent, rest) ← readExponent afterFraction
  pure (⟨negative, whole, fraction, exponent⟩, rest)

namespace Numeral

/-- Goes on with a number digit by digit as long as it has sixty-four bits; with how many it did. -/
def absorb (n : Nat) : List Char → Nat × Nat
  | [] => (n, 0)
  | c :: cs =>
    let next := 10 * n + Digits.value c
    if next < Nat.pow 2 64 then
      let (m, taken) := absorb next cs
      (m, taken + 1)
    else (n, 0)

/-- The digits that make a number of sixty-four bits, and the power of ten that goes with them. -/
def parts (n : Numeral) : Nat × Int :=
  let (whole, taken) := absorb 0 n.whole
  let (significand, decimals) := absorb whole (n.fraction.getD [])
  let skipped : Nat := n.whole.length - taken
  (significand, n.exponent.getD 0 + skipped - decimals)

/-- The significand is rounded and then scaled, so the result need not be the nearest number. -/
def float (n : Numeral) : Binary64 :=
  let (significand, exponent) := n.parts
  .signed n.negative ((Magnitude.nearest? significand 1).bind fun x => x.scale? exponent)

def integer? (n : Numeral) : Option Int :=
  if n.fraction.isSome ∨ n.exponent.isSome then none
  else
    let value := Digits.read n.whole
    if n.negative then
      if value = 0 ∨ Nat.pow 2 63 < value then none else some (-(value : Int))
    else if value < Nat.pow 2 64 then some value else none

def scalar? (n : Numeral) : Option Scalar :=
  match n.integer? with
  | some k => some (.integer k)
  | none => if n.float.isFinite then some (.float n.float) else none

end Numeral

def readNumber (cs : List Char) : Node × Option (List Char) :=
  match readNumeral cs with
  | .error failure => (.unreadable failure false, none)
  | .ok (numeral, rest) =>
    match numeral.scalar? with
    | some value => (.scalar value none none, some rest)
    | none => (.unreadable (malformed "number out of range") true, some rest)

def readWord (word : String) (value : Scalar) (cs : List Char) : Node × Option (List Char) :=
  match Text.dropStart? word.toList cs with
  | some rest => (.scalar value none none, some rest)
  | none =>
    let atEnd := cs.isPrefixOf word.toList
    (.unreadable (if atEnd then ended else malformed "expected ident") false, none)

/-- A container with room for it; without, only its shape is known. -/
def enter (room : Nat) (n : Node) (rest : Option (List Char)) : Node × Option (List Char) :=
  if 2 ≤ room then (n, rest)
  else (.unreadable (malformed "recursion limit exceeded") rest.isSome, rest)

abbrev Stop := Option Failure

mutual

def readValue : Nat → Nat → List Char → Node × Option (List Char)
  | 0, _, _ => (.unreadable ended false, none)
  | fuel + 1, room, cs =>
    match skipBlanks cs with
    | [] => (.unreadable ended false, none)
    | '"' :: rest => readString rest
    | '[' :: rest =>
      let (items, stop, after) := readItems fuel (room - 1) true rest
      enter room (.sequence items stop none) after
    | '{' :: rest =>
      let (entries, stop, after) := readEntries fuel (room - 1) true rest
      enter room (.mapping entries stop none) after
    | c :: rest =>
      if c = 'n' then readWord "null" .null (c :: rest)
      else if c = 't' then readWord "true" (.boolean true) (c :: rest)
      else if c = 'f' then readWord "false" (.boolean false) (c :: rest)
      else if c = '-' ∨ c.isDigit then readNumber (c :: rest)
      else (.unreadable (stopAt (c :: rest)) false, none)

def readItems : Nat → Nat → Bool → List Char → List Node × Stop × Option (List Char)
  | 0, _, _, _ => ([], some ended, none)
  | fuel + 1, room, first, cs =>
    match skipBlanks cs with
    | ']' :: rest => ([], none, some rest)
    | c :: rest =>
      if first ∨ c = ',' then
        let (item, after) := readValue fuel room (if first then c :: rest else rest)
        match after with
        | none => ([item], none, none)
        | some after =>
          let (items, stop, after) := readItems fuel room false after
          (item :: items, stop, after)
      else ([], some (stopAt (c :: rest)), none)
    | [] => ([], some ended, none)

def readEntries : Nat → Nat → Bool → List Char → List (Node × Node) × Stop × Option (List Char)
  | 0, _, _, _ => ([], some ended, none)
  | fuel + 1, room, first, cs =>
    match skipBlanks cs with
    | '}' :: rest => ([], none, some rest)
    | c :: rest =>
      if first ∨ c = ',' then
        match skipBlanks (if first then c :: rest else rest) with
        | '"' :: keyText =>
          let (key, afterKey) := readString keyText
          match afterKey.map skipBlanks with
          | some (':' :: valueText) =>
            let (value, after) := readValue fuel room valueText
            match after with
            | none => ([(key, value)], none, none)
            | some after =>
              let (entries, stop, after) := readEntries fuel room false after
              ((key, value) :: entries, stop, after)
          | some other => ([(key, .unreadable (stopAt other) false)], none, none)
          | none => ([(key, .unreadable ended false)], none, none)
        | other =>
          let (key, _) := readValue fuel room other
          ([(key, .unreadable (stopAt other) false)], none, none)
      else ([], some (stopAt (c :: rest)), none)
    | [] => ([], some ended, none)

end

/-- How deep containers may nest, one more than the deepest that is read. -/
def room : Nat := 128

def document (text : String) : Whole :=
  let cs := text.toList
  let (root, after) := readValue (2 * cs.length + 2) room cs
  match after with
  | none => ⟨root, none⟩
  | some rest =>
    ⟨root, if (skipBlanks rest).isEmpty then none else some (malformed "trailing characters")⟩

def decode {α : Type} (read : Node → Reading α) (text : String) : Reading α :=
  (document text).decode read

def placeAfter (cs : List Char) : Place :=
  cs.foldl (fun p c => if c = '\n' then ⟨p.line + 1, 0⟩ else ⟨p.line, p.column + 1⟩) ⟨0, 0⟩

/-- A failure with its place: the end of the shortest beginning of the text that fails alike. -/
def located {α : Type} (read : Node → Reading α) (text : String) (failure : Failure) : Failure :=
  let failsAlike (cs : List Char) : Bool :=
    match decode read (String.ofList cs) with
    | .error e => e.fault = failure.fault
    | .ok _ => false
  let beginnings := (List.range (text.toList.length + 1)).map text.toList.take
  ⟨failure.fault, (beginnings.find? failsAlike).map placeAfter⟩

end CoverageQuery.Json
