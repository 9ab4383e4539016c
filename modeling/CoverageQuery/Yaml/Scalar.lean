import CoverageQuery.Number.Digits
import CoverageQuery.Yaml.Token

/-!
# Scalars

A scalar is plain, in quotes, or a block of indented lines. In plain and quoted scalars a line break
with the blanks around it stands for a space, and each further one for itself. Double quotes have
escapes; single quotes are written twice inside single quotes. A block keeps its line breaks or folds
them between lines that do not begin with blanks, and says what becomes of those at its end.
-/
namespace CoverageQuery.Yaml

open Document (Place Reading)

/-- What stands between the words of a scalar: blanks, or line breaks with the first one apart. -/
structure Gap where
  blanks : List Char
  breaks : List Char
  deriving DecidableEq, Repr

def Gap.text (g : Gap) (afterEscape : Bool) : List Char :=
  match g.breaks with
  | [] => if afterEscape then [] else g.blanks
  | first :: others =>
    if afterEscape ∨ first ≠ '\n' then first :: others
    else if others.isEmpty then [' '] else others

def Gap.crossesLine (g : Gap) : Bool := !g.breaks.isEmpty

/-- The gap at the cursor. In a plain scalar, no tab may stand on a further line to the left of
`margin`. -/
def readGap (margin : Nat) (fresh : Bool) : Nat → Cursor → Reading (Gap × Cursor)
  | 0, c => .ok (⟨[], []⟩, c)
  | fuel + 1, c =>
    if isBlank c.next then
      if fresh ∧ c.place.column < margin ∧ c.next = '\t' then
        problem c.place "found a tab character that violates indentation"
          (some "while scanning a plain scalar")
      else
        (readGap margin fresh fuel (c.skip 1)).map fun (g, after) =>
          (if fresh then g else { g with blanks := c.next :: g.blanks }, after)
    else if isBreak c.next then
      let (text, next) := c.lineBreak
      (readGap margin true fuel next).map fun (g, after) => (⟨[], text ++ g.breaks⟩, after)
    else .ok (⟨[], []⟩, c)

def isFlowMark (c : Char) : Bool := c ∈ [',', '[', ']', '{', '}']

def clashesWithColon (c : Char) : Bool := c = '?' ∨ isFlowMark c

def plainRun (inFlow : Bool) : Nat → Cursor → Reading (List Char × Cursor)
  | 0, c => .ok ([], c)
  | fuel + 1, c =>
    if isSpace c.next then .ok ([], c)
    else if inFlow ∧ c.next = ':' ∧ clashesWithColon (c.ahead 1) then
      problem c.place "found unexpected ':'" (some "while scanning a plain scalar")
    else if (c.next = ':' ∧ isSpace (c.ahead 1)) ∨ (inFlow ∧ isFlowMark c.next) then .ok ([], c)
    else (plainRun inFlow fuel (c.skip 1)).map fun (run, after) => (c.next :: run, after)

structure Plain where
  text : List Char
  stop : Place
  crossesLine : Bool
  cursor : Cursor
  deriving DecidableEq, Repr

def readPlainRest (inFlow : Bool) (margin : Nat) (p : Plain) (before : List Char) :
    Nat → Reading Plain
  | 0 => .ok p
  | fuel + 1 => do
    let c := p.cursor
    if c.atDocumentMarker ∨ c.next = '#' then return p
    let (run, afterRun) ← plainRun inFlow fuel c
    let p :=
      if run.isEmpty then p
      else ⟨p.text ++ before ++ run, afterRun.place, false, afterRun⟩
    let before := if run.isEmpty then before else []
    if ¬(isBlank afterRun.next ∨ isBreak afterRun.next) then return p
    let (g, afterGap) ← readGap margin p.crossesLine fuel afterRun
    let p := { p with crossesLine := p.crossesLine || g.crossesLine, cursor := afterGap }
    if ¬inFlow ∧ afterGap.place.column < margin then return p
    readPlainRest inFlow margin p (before ++ g.text false) fuel

def readPlain (c : Cursor) (inFlow : Bool) (margin : Nat) : Reading (Token × Cursor × Bool) := do
  let p ← readPlainRest inFlow margin ⟨[], c.place, false, c⟩ [] (c.rest.length + 1)
  pure (⟨.scalar p.text true, c.place, p.stop⟩, p.cursor, p.crossesLine)

def escaped? (c : Char) : Option Char :=
  match c with
  | '0' => some atEnd
  | 'a' => some (Char.ofNat 7)
  | 'b' => some (Char.ofNat 8)
  | 't' | '\t' => some '\t'
  | 'n' => some '\n'
  | 'v' => some (Char.ofNat 11)
  | 'f' => some (Char.ofNat 12)
  | 'r' => some '\r'
  | 'e' => some (Char.ofNat 27)
  | ' ' | '"' | '/' | '\\' => some c
  | 'N' => some nextLine
  | '_' => some (Char.ofNat 0xA0)
  | 'L' => some lineSeparator
  | 'P' => some paragraphSeparator
  | _ => none

def codeLength? (c : Char) : Option Nat :=
  match c with
  | 'x' => some 2
  | 'u' => some 4
  | 'U' => some 8
  | _ => none

def readEscape (c : Cursor) : Reading (Char × Cursor) :=
  let context := some "while parsing a quoted scalar"
  match codeLength? (c.ahead 1) with
  | none =>
    match escaped? (c.ahead 1) with
    | some char => .ok (char, c.skip 2)
    | none => problem c.place "found unknown escape character" context
  | some length =>
    let digits := (c.rest.drop 2).take length
    match if digits.length = length then Digits.readBase? 16 digits else none with
    | none => problem (c.skip 2).place "did not find expected hexdecimal number" context
    | some n =>
      if (0xD800 ≤ n ∧ n ≤ 0xDFFF) ∨ 0x10FFFF < n then
        problem (c.skip 2).place "found invalid Unicode character escape code" context
      else .ok (Char.ofNat n, c.skip (2 + length))

/-- The characters of a quoted scalar up to the next gap or its end, and whether they end with an
escaped line break. -/
def quotedRun (quote : Char) : Nat → Cursor → Reading (List Char × Bool × Cursor)
  | 0, c => .ok ([], false, c)
  | fuel + 1, c =>
    if isSpace c.next then .ok ([], false, c)
    else if c.next = quote then
      if quote = '\'' ∧ c.ahead 1 = '\'' then
        (quotedRun quote fuel (c.skip 2)).map fun (run, rest) => ('\'' :: run, rest)
      else .ok ([], false, c)
    else if quote = '"' ∧ c.next = '\\' then
      if isBreak (c.ahead 1) then .ok ([], true, (c.skip 1).lineBreak.2)
      else do
        let (char, after) ← readEscape c
        let (run, rest) ← quotedRun quote fuel after
        pure (char :: run, rest)
    else (quotedRun quote fuel (c.skip 1)).map fun (run, rest) => (c.next :: run, rest)

def quotedText (quote : Char) : Nat → Cursor → Reading (List Char × Cursor)
  | 0, c => .ok ([], c)
  | fuel + 1, c =>
    let context := some "while scanning a quoted scalar"
    if c.atDocumentMarker then problem c.place "found unexpected document indicator" context
    else if c.next = atEnd then problem c.place "found unexpected end of stream" context
    else do
      let (run, escape, afterRun) ← quotedRun quote fuel c
      if afterRun.next = quote then pure (run, afterRun)
      else
        let (g, afterGap) ← readGap 0 escape fuel afterRun
        let (more, after) ← quotedText quote fuel afterGap
        pure (run ++ g.text escape ++ more, after)

def readQuoted (c : Cursor) : Reading (Token × Cursor) := do
  let (text, atQuote) ← quotedText c.next (c.rest.length + 1) (c.skip 1)
  let after := atQuote.skip 1
  pure (⟨.scalar text false, c.place, after.place⟩, after)

inductive Chomping where
  | strip
  | clip
  | keep
  deriving DecidableEq, Repr

structure BlockHeader where
  chomping : Chomping
  indent : Option Nat
  deriving DecidableEq, Repr

def chomping? (c : Char) : Option Chomping :=
  match c with
  | '+' => some .keep
  | '-' => some .strip
  | _ => none

def blockIndent (c : Cursor) : Reading (Option Nat × Cursor) :=
  if c.next = '0' then
    problem c.place "found an indentation indicator equal to 0" (some "while scanning a block scalar")
  else if c.next.isDigit then .ok (some (Digits.value c.next), c.skip 1)
  else .ok (none, c)

def blockIndicators (c : Cursor) : Reading (BlockHeader × Cursor) :=
  match chomping? c.next with
  | some chomping => do
    let (indent, after) ← blockIndent (c.skip 1)
    pure (⟨chomping, indent⟩, after)
  | none => do
    let (indent, after) ← blockIndent c
    match if indent.isSome then chomping? after.next else none with
    | some chomping => pure (⟨chomping, indent⟩, after.skip 1)
    | none => pure (⟨.clip, indent⟩, after)

/-- Empty lines: their line breaks, how far any of them reaches, and the cursor in the first line that
is not empty. Without an indentation all spaces belong to it. -/
def emptyLines (indent : Option Nat) (reach : Nat) : Nat → Cursor → Reading (List Char × Nat × Cursor)
  | 0, c => .ok ([], reach, c)
  | fuel + 1, c =>
    let spaces := (c.rest.takeWhile (· = ' ')).length
    let inside := match indent with
      | none => c.skip spaces
      | some n => c.skip (min spaces (n - c.place.column))
    let reach := max reach inside.place.column
    if indent.all (inside.place.column < ·) ∧ inside.next = '\t' then
      problem inside.place "found a tab character where an indentation space is expected"
        (some "while scanning a block scalar")
    else if isBreak inside.next then
      let (text, next) := inside.lineBreak
      (emptyLines indent reach fuel next).map fun (breaks, rest) => (text ++ breaks, rest)
    else .ok ([], reach, inside)

structure Block where
  text : List Char
  lineEnd : List Char
  empty : List Char
  blank : Bool
  cursor : Cursor
  deriving DecidableEq, Repr

def Block.joint (b : Block) (folded nextBlank : Bool) : List Char :=
  if folded ∧ b.lineEnd.head? = some '\n' ∧ ¬b.blank ∧ ¬nextBlank then
    if b.empty.isEmpty then [' '] else b.empty
  else b.lineEnd ++ b.empty

def blockLines (folded : Bool) (indent : Nat) (b : Block) : Nat → Reading Block
  | 0 => .ok b
  | fuel + 1 => do
    let c := b.cursor
    if c.place.column ≠ indent ∨ c.next = atEnd then return b
    let blank := isBlank c.next
    let (line, afterLine) := c.span (!isBreakOrEnd ·)
    let (lineEnd, nextLine) := afterLine.lineBreak
    let (empty, _, after) ← emptyLines (some indent) 0 fuel nextLine
    blockLines folded indent
      ⟨b.text ++ b.joint folded blank ++ line, lineEnd, empty, blank, after⟩ fuel

def Block.chomped (b : Block) (chomping : Chomping) : List Char :=
  match chomping with
  | .strip => b.text
  | .clip => b.text ++ b.lineEnd
  | .keep => b.text ++ b.lineEnd ++ b.empty

/-- A block after its mark; `level` is one more than the column that it is nested in. -/
def readBlock (c : Cursor) (level : Nat) : Reading (Token × Cursor) := do
  let fuel := c.rest.length + 1
  let (header, afterIndicators) ← blockIndicators (c.skip 1)
  let lineEnd := (afterIndicators.skipWhile isBlank).skipComment
  if ¬isBreakOrEnd lineEnd.next then
    problem lineEnd.place "did not find expected comment or line break"
      (some "while scanning a block scalar")
  else
    let first := lineEnd.lineBreak.2
    let known := header.indent.map (level - 1 + ·)
    let (empty, reach, start) ← emptyLines known 0 fuel first
    let indent := known.getD (max (max reach level) 1)
    let b ← blockLines (c.next = '>') indent ⟨[], [], empty, false, start⟩ fuel
    pure (⟨.scalar (b.chomped header.chomping) false, c.place, b.cursor.place⟩, b.cursor)

end CoverageQuery.Yaml
