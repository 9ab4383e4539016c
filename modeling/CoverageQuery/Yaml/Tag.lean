import CoverageQuery.Number.Digits
import CoverageQuery.Text.Utf8
import CoverageQuery.Yaml.Token

/-!
# Names of nodes, tags and directives

An anchor names a node and an alias refers to it. A tag is written in full between angle brackets, or
as a handle between exclamation marks and a suffix, or as an exclamation mark and a suffix. Directives
stand before a document and give its version and the handles of its tags. In tags, a percent sign with
two hexadecimal digits is a byte.
-/
namespace CoverageQuery.Yaml

open Document (Place Reading)

def endsName (c : Char) : Bool := isSpace c ∨ c ∈ ['?', ':', ',', ']', '}', '%', '@', Char.ofNat 0x60]

def readName (c : Cursor) (isAlias : Bool) : Reading (Token × Cursor) :=
  let (name, after) := (c.skip 1).span isWord
  if name.isEmpty ∨ ¬ endsName after.next then
    problem after.place "did not find expected alphabetic or numeric character"
      (some (if isAlias then "while scanning an alias" else "while scanning an anchor"))
  else .ok (⟨if isAlias then .alias name else .anchor name, c.place, after.place⟩, after)

/-- The characters of tags; brackets and commas are among them only where nothing else can follow. -/
def isTagChar (full : Bool) (c : Char) : Bool :=
  isWord c ∨ c ∈ ";/?:@&=+$.%!~*'()".toList ∨ (full ∧ (c = ',' ∨ c = '[' ∨ c = ']'))

def byteCount (first : Nat) : Nat :=
  if first < 0x80 then 1
  else if first < 0xC0 then 0
  else if first < 0xE0 then 2
  else if first < 0xF0 then 3
  else if first < 0xF8 then 4
  else 0

def escapedByte? (c : Cursor) : Option Nat :=
  match c.rest with
  | '%' :: high :: low :: _ => Digits.readBase? 16 [high, low]
  | _ => none

/-- The escaped bytes of one character; `count` is how many are to come, if that is known. -/
def escapedBytes (place : Place) (context : String) :
    Nat → Option Nat → Cursor → Reading (List UInt8 × Cursor)
  | 0, _, c => .ok ([], c)
  | fuel + 1, count, c =>
    match escapedByte? c with
    | none => problem c.place "did not find URI escaped octet" (some context)
    | some byte => do
      let after := c.skip 3
      let remaining ← match count with
        | none =>
          if byteCount byte = 0 then
            problem c.place "found an incorrect leading UTF-8 octet" (some context)
          else pure (byteCount byte - 1)
        | some n =>
          if byte / 64 ≠ 2 then
            problem c.place "found an incorrect trailing UTF-8 octet" (some context)
          else pure (n - 1)
      if remaining = 0 then pure ([UInt8.ofNat byte], after)
      else
        let (others, last) ← escapedBytes place context fuel (some remaining) after
        pure (UInt8.ofNat byte :: others, last)

def tagBytes (place : Place) (context : String) (full : Bool) :
    Nat → Cursor → Reading (List UInt8 × Cursor)
  | 0, c => .ok ([], c)
  | fuel + 1, c =>
    if c.next = '%' then do
      let (bytes, after) ← escapedBytes place context 4 none c
      let (others, last) ← tagBytes place context full fuel after
      pure (bytes ++ others, last)
    else if isTagChar full c.next then do
      let (others, last) ← tagBytes place context full fuel (c.skip 1)
      pure (Utf8.encode [c.next] ++ others, last)
    else .ok ([], c)

/-- The rest of a tag; there has to be some unless something came before it. -/
def tagText (c : Cursor) (place : Place) (context : String) (full required : Bool) :
    Reading (List Char × Cursor) := do
  let (bytes, after) ← tagBytes place context full (c.rest.length + 1) c
  if bytes.isEmpty ∧ required then problem after.place "did not find expected tag URI" (some context)
  else pure (Utf8.decodeLenient bytes, after)

def tagHandle (c : Cursor) : List Char × Cursor :=
  let (name, after) := (c.skip 1).span isWord
  if after.next = '!' then ('!' :: name ++ ['!'], after.skip 1) else ('!' :: name, after)

def isClosed (handle : List Char) : Bool := 2 ≤ handle.length ∧ handle.getLast? = some '!'

def tagParts (c : Cursor) : Reading (TokenKind × Cursor) :=
  if c.ahead 1 = '<' then do
    let (suffix, after) ← tagText (c.skip 2) c.place "while parsing a tag" true true
    if after.next = '>' then pure (.tag [] suffix, after.skip 1)
    else problem after.place "did not find the expected '>'" (some "while scanning a tag")
  else
    let (handle, afterHandle) := tagHandle c
    if isClosed handle then do
      let (suffix, after) ← tagText afterHandle c.place "while parsing a tag" false true
      pure (.tag handle suffix, after)
    else do
      let (more, after) ← tagText afterHandle c.place "while parsing a tag" false false
      let suffix := handle.drop 1 ++ more
      pure (if suffix.isEmpty then .tag [] ['!'] else .tag ['!'] suffix, after)

def readTag (c : Cursor) (inFlow : Bool) : Reading (Token × Cursor) := do
  let (kind, after) ← tagParts c
  if isSpace after.next ∨ (inFlow ∧ after.next = ',') then pure (⟨kind, c.place, after.place⟩, after)
  else
    problem after.place "did not find expected whitespace or line break" (some "while scanning a tag")

def versionNumber (c : Cursor) : Reading (Nat × Cursor) :=
  let (digits, after) := c.span Char.isDigit
  let context := some "while scanning a %YAML directive"
  if 9 < digits.length then problem after.place "found extremely long version number" context
  else if digits.isEmpty then problem after.place "did not find expected version number" context
  else .ok (Digits.read digits, after)

def versionValue (c : Cursor) : Reading (TokenKind × Cursor) := do
  let (major, afterMajor) ← versionNumber (c.skipWhile isBlank)
  if afterMajor.next ≠ '.' then
    problem afterMajor.place "did not find expected digit or '.' character"
      (some "while scanning a %YAML directive")
  else
    let (minor, after) ← versionNumber (afterMajor.skip 1)
    pure (.version major minor, after)

def shorthandValue (c : Cursor) : Reading (TokenKind × Cursor) := do
  let handleStart := c.skipWhile isBlank
  let context := some "while scanning a %TAG directive"
  if handleStart.next ≠ '!' then
    problem handleStart.place "did not find expected '!'" (some "while scanning a tag directive")
  else
    let (handle, afterHandle) := tagHandle handleStart
    if handle ≠ ['!'] ∧ ¬ isClosed handle then
      problem afterHandle.place "did not find expected '!'" (some "while parsing a tag directive")
    else if ¬ isBlank afterHandle.next then
      problem afterHandle.place "did not find expected whitespace" context
    else
      let (expansion, after) ←
        tagText (afterHandle.skipWhile isBlank) c.place "while parsing a %TAG directive" true true
      if isSpace after.next then pure (.shorthand handle expansion, after)
      else problem after.place "did not find expected whitespace or line break" context

def readDirective (c : Cursor) : Reading (Token × Cursor) := do
  let context := some "while scanning a directive"
  let (name, afterName) := (c.skip 1).span isWord
  if name.isEmpty then problem afterName.place "could not find expected directive name" context
  else if ¬ isSpace afterName.next then
    problem afterName.place "found unexpected non-alphabetical character" context
  else
    let (kind, after) ←
      if name = "YAML".toList then versionValue afterName
      else if name = "TAG".toList then shorthandValue afterName
      else problem afterName.place "found unknown directive name" context
    let lineEnd := (after.skipWhile isBlank).skipComment
    if isBreakOrEnd lineEnd.next then pure (⟨kind, c.place, after.place⟩, lineEnd.lineBreak.2)
    else problem lineEnd.place "did not find expected comment or line break" context

end CoverageQuery.Yaml
