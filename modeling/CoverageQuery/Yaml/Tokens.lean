import CoverageQuery.Yaml.Scalar
import CoverageQuery.Yaml.Tag

/-!
# From text to tokens

The tokens of a text are found from left to right. Columns to the right of the current one open blocks
and columns to the left close them. Whatever can be a key on one line is remembered until a colon
follows, which puts a key token in front of it, or until it can be a key no more. A text that stops
being one has the tokens up to there and a failure; tokens that might still have turned out to be
keys are not among them.
-/
namespace CoverageQuery.Yaml

open Document (Place Failure Reading)

/-- A node that a colon would make a key. -/
structure SimpleKey where
  /-- Whether no other meaning is possible, since a line of a block begins with it. -/
  required : Bool
  index : Nat
  start : Place
  offset : Nat
  deriving DecidableEq, Repr

/-- Keys stay on one line and within 1024 characters. -/
def SimpleKey.isStale (k : SimpleKey) (c : Cursor) : Bool :=
  k.start.line < c.place.line ∨ k.offset + 1024 < c.index

structure TokenDraft where
  cursor : Cursor
  tokens : Array Token
  /-- One more than the column of the innermost block; zero outside all blocks. -/
  level : Nat
  outer : List Nat
  keyAllowed : Bool
  /-- The key that is possible where the text stands now, and those of the collections in flow
  around it. -/
  key : Option SimpleKey
  outerKeys : List (Option SimpleKey)
  deriving Repr

namespace TokenDraft

def start (cs : List Char) : TokenDraft := ⟨Cursor.start cs, #[], 0, [], true, none, []⟩

def inFlow (s : TokenDraft) : Bool := !s.outerKeys.isEmpty

def push (s : TokenDraft) (t : Token) : TokenDraft := { s with tokens := s.tokens.push t }

def mark (s : TokenDraft) (kind : TokenKind) : TokenDraft := s.push ⟨kind, s.cursor.place, s.cursor.place⟩

def take (s : TokenDraft) (kind : TokenKind) (n : Nat) : TokenDraft :=
  let after := s.cursor.skip n
  { s.push ⟨kind, s.cursor.place, after.place⟩ with cursor := after }

def missingColon {α : Type} (c : Cursor) : Reading α :=
  problem c.place "could not find expected ':'" (some "while scanning a simple key")

def giveUp (s : TokenDraft) : Reading TokenDraft :=
  if s.key.any (·.required) then missingColon s.cursor else .ok { s with key := none }

def fresh (c : Cursor) (key : Option SimpleKey) : Reading (Option SimpleKey) :=
  match key with
  | none => .ok none
  | some k =>
    if k.isStale c then (if k.required then missingColon c else .ok none) else .ok (some k)

def dropStale (s : TokenDraft) : Reading TokenDraft := do
  let outerKeys ← s.outerKeys.mapM (fresh s.cursor)
  let key ← fresh s.cursor s.key
  pure { s with key, outerKeys }

def saveKey (s : TokenDraft) : Reading TokenDraft :=
  if s.keyAllowed then do
    let required := !s.inFlow && s.level = s.cursor.place.column + 1
    let s ← s.giveUp
    pure { s with key := some ⟨required, s.tokens.size, s.cursor.place, s.cursor.index⟩ }
  else .ok s

/-- Opens a block at a column to the right of the current one; its token goes to `index`. -/
def openBlock (s : TokenDraft) (column : Nat) (kind : TokenKind) (index : Nat) (place : Place) : TokenDraft :=
  if s.inFlow ∨ column < s.level then s
  else
    { s with
      level := column + 1
      outer := s.level :: s.outer
      tokens := s.tokens.insertIdxIfInBounds index ⟨kind, place, place⟩ }

def openBlockHere (s : TokenDraft) (kind : TokenKind) : TokenDraft :=
  s.openBlock s.cursor.place.column kind s.tokens.size s.cursor.place

def closeBlocks (s : TokenDraft) (level : Nat) : TokenDraft :=
  if s.inFlow then s
  else
    let closed := (s.level :: s.outer).takeWhile (level < ·)
    let left := (s.level :: s.outer).drop closed.length
    let closing := List.replicate closed.length ⟨.blockEnd, s.cursor.place, s.cursor.place⟩
    { s with
      tokens := s.tokens ++ closing.toArray
      level := left.headD 0
      outer := left.tail }

/-- Moves over blanks, comments and line breaks. Where a key is allowed in a block, no tab is. -/
def skipSpace (s : TokenDraft) : Nat → TokenDraft
  | 0 => s
  | fuel + 1 =>
    let tabs := s.inFlow || !s.keyAllowed
    let c := if s.cursor.index = 0 ∧ s.cursor.next = Char.ofNat 0xFEFF then s.cursor.skip 1 else s.cursor
    let c := (c.skipWhile fun ch => ch = ' ' ∨ (tabs ∧ ch = '\t')).skipComment
    if isBreak c.next then
      skipSpace { s with cursor := c.lineBreak.2, keyAllowed := s.keyAllowed || !s.inFlow } fuel
    else { s with cursor := c }

def takeEnd (s : TokenDraft) : Reading TokenDraft := do
  let place := s.cursor.place
  let place := if place.column = 0 then place else ⟨place.line + 1, 0⟩
  let s := { s with cursor := { s.cursor with place } }
  let s ← (s.closeBlocks 0).giveUp
  pure ({ s with keyAllowed := false }.mark .textEnd)

def takeMarker (s : TokenDraft) (kind : TokenKind) : Reading TokenDraft := do
  let s ← (s.closeBlocks 0).giveUp
  pure ({ s with keyAllowed := false }.take kind 3)

def takeDirective (s : TokenDraft) : Reading TokenDraft := do
  let s ← (s.closeBlocks 0).giveUp
  let (token, cursor) ← readDirective s.cursor
  pure { s.push token with cursor, keyAllowed := false }

def takeFlowStart (s : TokenDraft) (kind : TokenKind) : Reading TokenDraft := do
  let s ← s.saveKey
  pure ({ s with outerKeys := s.key :: s.outerKeys, key := none, keyAllowed := true }.take kind 1)

def takeFlowEnd (s : TokenDraft) (kind : TokenKind) : Reading TokenDraft := do
  let s ← s.giveUp
  let s := match s.outerKeys with
    | key :: outerKeys => { s with key, outerKeys }
    | [] => s
  pure ({ s with keyAllowed := false }.take kind 1)

def takeComma (s : TokenDraft) : Reading TokenDraft := do
  let s ← s.giveUp
  pure ({ s with keyAllowed := true }.take .comma 1)

def takeEntry (s : TokenDraft) : Reading TokenDraft := do
  if ¬s.inFlow ∧ ¬s.keyAllowed then
    problem s.cursor.place "block sequence entries are not allowed in this context" none
  else
    let s ← (s.openBlockHere .blockSequence).giveUp
    pure ({ s with keyAllowed := true }.take .entry 1)

def takeKey (s : TokenDraft) : Reading TokenDraft := do
  if ¬s.inFlow ∧ ¬s.keyAllowed then
    problem s.cursor.place "mapping keys are not allowed in this context" none
  else
    let s ← (s.openBlockHere .blockMapping).giveUp
    pure ({ s with keyAllowed := !s.inFlow }.take .key 1)

def takeValue (s : TokenDraft) : Reading TokenDraft :=
  match s.key with
  | some k =>
    let tokens := s.tokens.insertIdxIfInBounds k.index ⟨.key, k.start, k.start⟩
    let s := { s with tokens, key := none, keyAllowed := false }
    .ok ((s.openBlock k.start.column .blockMapping k.index k.start).take .value 1)
  | none =>
    if ¬s.inFlow ∧ ¬s.keyAllowed then
      problem s.cursor.place "mapping values are not allowed in this context" none
    else .ok ({ s.openBlockHere .blockMapping with keyAllowed := !s.inFlow }.take .value 1)

def takeName (s : TokenDraft) (isAlias : Bool) : Reading TokenDraft := do
  let s ← s.saveKey
  let (token, cursor) ← readName s.cursor isAlias
  pure { s.push token with cursor, keyAllowed := false }

def takeTag (s : TokenDraft) : Reading TokenDraft := do
  let s ← s.saveKey
  let (token, cursor) ← readTag s.cursor s.inFlow
  pure { s.push token with cursor, keyAllowed := false }

def takeBlock (s : TokenDraft) : Reading TokenDraft := do
  let s ← s.giveUp
  let (token, cursor) ← readBlock s.cursor s.level
  pure { s.push token with cursor, keyAllowed := true }

def takeQuoted (s : TokenDraft) : Reading TokenDraft := do
  let s ← s.saveKey
  let (token, cursor) ← readQuoted s.cursor
  pure { s.push token with cursor, keyAllowed := false }

def takePlain (s : TokenDraft) : Reading TokenDraft := do
  let s ← s.saveKey
  let (token, cursor, crossesLine) ← readPlain s.cursor s.inFlow s.level
  pure { s.push token with cursor, keyAllowed := crossesLine }

/-- Characters that no plain scalar begins with; the first three may if something follows. -/
def indicators : List Char :=
  "-?:,[]\x7b\x7d#&*!|>'\"%@".toList ++ [Char.ofNat 0x60]

def beginsPlain (s : TokenDraft) : Bool :=
  let c := s.cursor
  (¬isSpace c.next ∧ c.next ∉ indicators)
    ∨ (c.next = '-' ∧ ¬isBlank (c.ahead 1))
    ∨ (¬s.inFlow ∧ (c.next = '?' ∨ c.next = ':') ∧ ¬isSpace (c.ahead 1))

def takeNext (s : TokenDraft) : Reading (TokenDraft × Bool) := do
  let c := s.cursor
  let alone := isSpace (c.ahead 1)
  if c.next = atEnd then return (← s.takeEnd, true)
  let s ←
    if c.place.column = 0 ∧ c.next = '%' then s.takeDirective
    else if c.atMarker '-' then s.takeMarker .documentStart
    else if c.atMarker '.' then s.takeMarker .documentEnd
    else if c.next = '[' then s.takeFlowStart .flowSequence
    else if c.next = '{' then s.takeFlowStart .flowMapping
    else if c.next = ']' then s.takeFlowEnd .flowSequenceEnd
    else if c.next = '}' then s.takeFlowEnd .flowMappingEnd
    else if c.next = ',' then s.takeComma
    else if c.next = '-' ∧ alone then s.takeEntry
    else if c.next = '?' ∧ (s.inFlow ∨ alone) then s.takeKey
    else if c.next = ':' ∧ (s.inFlow ∨ alone) then s.takeValue
    else if c.next = '*' then s.takeName true
    else if c.next = '&' then s.takeName false
    else if c.next = '!' then s.takeTag
    else if (c.next = '|' ∨ c.next = '>') ∧ ¬s.inFlow then s.takeBlock
    else if c.next = '\'' ∨ c.next = '"' then s.takeQuoted
    else if s.beginsPlain then s.takePlain
    else
      problem c.place "found character that cannot start any token"
        (some "while scanning for the next token")
  pure (s, false)

def step (s : TokenDraft) : Reading (TokenDraft × Bool) := do
  let s ← (s.skipSpace (s.cursor.rest.length + 1)).dropStale
  (s.closeBlocks (s.cursor.place.column + 1)).takeNext

/-- How many tokens cannot turn out to follow a key token that is still to come. -/
def settled (s : TokenDraft) : Nat :=
  let possible := (s.key :: s.outerKeys).filterMap fun key =>
    (key.filter fun k => !k.isStale s.cursor).map SimpleKey.index
  possible.foldl min s.tokens.size

def run (s : TokenDraft) : Nat → Array Token × Option Failure
  | 0 => (s.tokens, none)
  | fuel + 1 =>
    match s.step with
    | .error failure => (s.tokens.take s.settled, some failure)
    | .ok (s, true) => (s.tokens, none)
    | .ok (s, false) => s.run fuel

end TokenDraft

def forbiddenOffset? (cs : List Char) : Option Nat :=
  if cs.all isAllowed then none else some (Utf8.size (cs.takeWhile isAllowed))

def tokens (text : String) : List Token × Option Failure :=
  let cs := text.toList
  match forbiddenOffset? cs with
  | some n =>
    let place := if n = 0 then "" else " at position " ++ toString n
    ([], some ⟨.malformed ("control characters are not allowed" ++ place), some ⟨0, 0⟩⟩)
  | none =>
    let cs := if cs.head? = some (Char.ofNat 0xFEFF) then cs.tail else cs
    let (tokens, failure) := (TokenDraft.start cs).run (cs.length + 2)
    (tokens.toList, failure)

end CoverageQuery.Yaml
