import CoverageQuery.Document.Fault

/-!
# Reading a text by lines and columns

A cursor stands at a place of a text and knows how many characters come before it. It moves over single
characters within a line and over line breaks, of which a carriage return with a line feed is one.
Beyond the end of the text it sees null characters, which no text holds.
-/
namespace CoverageQuery.Yaml

open Document (Place Failure Reading)

structure Cursor where
  rest : List Char
  place : Place
  index : Nat
  deriving DecidableEq, Repr

def isBlank (c : Char) : Bool := c = ' ' ∨ c = '\t'

def nextLine : Char := Char.ofNat 0x85

def lineSeparator : Char := Char.ofNat 0x2028

def paragraphSeparator : Char := Char.ofNat 0x2029

def isBreak (c : Char) : Bool :=
  c = '\n' ∨ c = '\r' ∨ c = nextLine ∨ c = lineSeparator ∨ c = paragraphSeparator

def atEnd : Char := Char.ofNat 0

def isBreakOrEnd (c : Char) : Bool := isBreak c ∨ c = atEnd

def isSpace (c : Char) : Bool := isBlank c ∨ isBreakOrEnd c

def isWord (c : Char) : Bool := c.isAlphanum ∨ c = '_' ∨ c = '-'

def isAllowed (c : Char) : Bool :=
  let n := c.toNat
  n = 0x9 ∨ n = 0xA ∨ n = 0xD ∨ (0x20 ≤ n ∧ n ≤ 0x7E) ∨ n = 0x85
    ∨ (0xA0 ≤ n ∧ n ≤ 0xFFFD) ∨ 0x10000 ≤ n

def problem {α : Type} (place : Place) (text : String) (context : Option String) : Reading α :=
  .error ⟨.malformed (text ++ (context.map (", " ++ ·)).getD ""), some place⟩

namespace Cursor

def start (cs : List Char) : Cursor := ⟨cs, ⟨0, 0⟩, 0⟩

def ahead (c : Cursor) (n : Nat) : Char := c.rest[n]?.getD atEnd

def next (c : Cursor) : Char := c.ahead 0

def skip (c : Cursor) (n : Nat) : Cursor :=
  ⟨c.rest.drop n, ⟨c.place.line, c.place.column + n⟩, c.index + n⟩

def span (c : Cursor) (fits : Char → Bool) : List Char × Cursor :=
  let found := c.rest.takeWhile fits
  (found, c.skip found.length)

def skipWhile (c : Cursor) (fits : Char → Bool) : Cursor := (c.span fits).2

def newLine (c : Cursor) (n : Nat) : Cursor := ⟨c.rest.drop n, ⟨c.place.line + 1, 0⟩, c.index + n⟩

/-- The line break at the cursor, as text, and the cursor after it. Only separators stay as they are;
without a line break there is nothing to move over. -/
def lineBreak (c : Cursor) : List Char × Cursor :=
  if c.next = '\r' ∧ c.ahead 1 = '\n' then (['\n'], c.newLine 2)
  else if c.next = '\r' ∨ c.next = '\n' ∨ c.next = nextLine then (['\n'], c.newLine 1)
  else if isBreak c.next then ([c.next], c.newLine 1)
  else ([], c)

def skipComment (c : Cursor) : Cursor :=
  if c.next = '#' then c.skipWhile (!isBreakOrEnd ·) else c

def atMarker (c : Cursor) (mark : Char) : Bool :=
  c.place.column = 0 ∧ c.next = mark ∧ c.ahead 1 = mark ∧ c.ahead 2 = mark ∧ isSpace (c.ahead 3)

def atDocumentMarker (c : Cursor) : Bool := c.atMarker '-' ∨ c.atMarker '.'

end Cursor
end CoverageQuery.Yaml
