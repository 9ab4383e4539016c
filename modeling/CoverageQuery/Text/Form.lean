import CoverageQuery.Text.Utf8
import CoverageQuery.Text.Blank
import CoverageQuery.Number.Digits

/-!
# Forms in URLs

A form is a list of names with values, written as `name=value` pairs with `&` between them. In names
and values a space is a plus sign, letters, digits and `*`, `-`, `.`, `_` stand for themselves, and
every other byte of the text is a percent sign with two hexadecimal digits. Reading undoes this:
pieces between ampersands that are not empty are pairs, cut at their first equals sign.
-/
namespace CoverageQuery.Form

abbrev Pairs := List (String × String)

def isPlain (b : UInt8) : Bool :=
  let c := Char.ofNat b.toNat
  b < 0x80 ∧ (c.isAlphanum ∨ c = '*' ∨ c = '-' ∨ c = '.' ∨ c = '_')

def upperHex (d : Nat) : Char :=
  if d < 10 then Digits.char d else Char.ofNat (55 + d)

def percentByte (b : UInt8) : List Char :=
  ['%', upperHex (b.toNat / 16), upperHex (b.toNat % 16)]

def encodeByte (b : UInt8) : List Char :=
  if b = 0x20 then ['+'] else if isPlain b then [Char.ofNat b.toNat] else percentByte b

def encodeText (s : String) : List Char :=
  (Utf8.encode s.toList).flatMap encodeByte

def encodePair (pair : String × String) : List Char :=
  encodeText pair.1 ++ '=' :: encodeText pair.2

def encode (pairs : Pairs) : List Char :=
  ['&'].intercalate (pairs.map encodePair)

def escaped? (high low : UInt8) : Option UInt8 :=
  match Digits.value? 16 (Char.ofNat high.toNat), Digits.value? 16 (Char.ofNat low.toNat) with
  | some h, some l => some (UInt8.ofNat (16 * h + l))
  | _, _ => none

/-- The bytes of a text in which percent signs with two hexadecimal digits stand for bytes; any other
percent sign stands for itself. -/
def percentDecode : Utf8.Bytes → Utf8.Bytes
  | [] => []
  | [a] => [a]
  | [a, b] => [a, b]
  | a :: high :: low :: rest =>
    match if a = 0x25 then escaped? high low else none with
    | some byte => byte :: percentDecode rest
    | none => a :: percentDecode (high :: low :: rest)

def decodeText (cs : List Char) : String :=
  let spaced := cs.map fun c => if c = '+' then ' ' else c
  String.ofList (Utf8.decodeLenient (percentDecode (Utf8.encode spaced)))

def decodePair (cs : List Char) : String × String :=
  match Text.splitOnce? '=' cs with
  | some (name, value) => (decodeText name, decodeText value)
  | none => (decodeText cs, "")

def decode (cs : List Char) : Pairs :=
  ((cs.splitOn '&').filter (!·.isEmpty)).map decodePair

end CoverageQuery.Form
