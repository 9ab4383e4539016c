import CoverageQuery.Yaml.Tokens
import CoverageQuery.Yaml.Typing

/-!
# Reading YAML

The tokens of a text are put together to the tree of its one document. A node may have an anchor, by
which later nodes can refer to it, and a tag. Where the text stops being YAML, the tree has an
unreadable node or an unfinished collection, and nothing after it; collections nested too deeply are
unreadable but can be skipped. A text without a document has no value, and one with several is refused.
-/
namespace CoverageQuery.Yaml

open Document

structure Remainder where
  tokens : List Token
  failure : Option Failure
  handles : List (List Char × List Char)
  anchors : List (List Char × Nat)
  /-- Nodes with their numbers; of two with one number the later counts. -/
  nodes : Array (Nat × Node)
  deriving Repr

def depthLimit : Nat := 128

def standardHandles : List (List Char × List Char) :=
  [(['!'], ['!']), (['!', '!'], standardTag)]

namespace Remainder

def peek (c : Remainder) : Reading Token :=
  match c.tokens with
  | t :: _ => .ok t
  | [] => .error (c.failure.getD ⟨.unexpectedEnd, none⟩)

def advance (c : Remainder) : Remainder := { c with tokens := c.tokens.tail }

structure Properties where
  anchor : Option (List Char)
  tag : Option (List Char)
  start : Place
  deriving Repr

def resolve (c : Remainder) (t : Token) (handle suffix : List Char) : Reading (List Char) :=
  if handle.isEmpty then .ok suffix
  else
    match c.handles.lookup handle with
    | some expansion => .ok (expansion ++ suffix)
    | none => problem t.start "found undefined tag handle" (some "while parsing a node")

def properties (c : Remainder) : Reading (Properties × Remainder) := do
  let first ← c.peek
  match first.kind with
  | .anchor name =>
    let c := c.advance
    let second ← c.peek
    match second.kind with
    | .tag handle suffix =>
      let c := c.advance
      let _ ← c.peek
      let tag ← c.resolve second handle suffix
      pure (⟨some name, some tag, first.start⟩, c)
    | _ => pure (⟨some name, none, first.start⟩, c)
  | .tag handle suffix =>
    let c := c.advance
    let second ← c.peek
    match second.kind with
    | .anchor name =>
      let c := c.advance
      let _ ← c.peek
      let tag ← c.resolve first handle suffix
      pure (⟨some name, some tag, first.start⟩, c)
    | _ =>
      let tag ← c.resolve first handle suffix
      pure (⟨none, some tag, first.start⟩, c)
  | _ => pure (⟨none, none, first.start⟩, c)

/-- A node that refers to the one it is in. -/
def unfinishedNode : Node := .unreadable ⟨.malformed "recursion limit exceeded", none⟩ true

def name (c : Remainder) (anchor : Option (List Char)) : Option Nat × Remainder :=
  match anchor with
  | none => (none, c)
  | some name =>
    let number := c.anchors.length
    (some c.nodes.size,
      { c with
        anchors := (name, number) :: c.anchors.filter (·.1 ≠ name)
        nodes := c.nodes.push (number, unfinishedNode) })

def complete (c : Remainder) (slot : Option Nat) (n : Node) : Remainder :=
  match slot with
  | none => c
  | some i =>
    { c with nodes := c.nodes.modify i fun (number, _) => (number, n) }

def aliased? (c : Remainder) (name : List Char) : Option Node := do
  let number ← c.anchors.lookup name
  (← c.nodes.findRev? (·.1 = number)).2

end Remainder

def tagNode (tag : Option (List Char)) (n : Node) : Node :=
  match variantTag? tag with
  | some name => .tagged (String.ofList name) n
  | none => n

def emptyNode (place : Place) : Node := .scalar .null (some "") (some place)

def nest (depth : Nat) (place : Place) (n : Node) (isComplete : Bool) : Node :=
  if depth < depthLimit then n
  else .unreadable ⟨.malformed "recursion limit exceeded", some place⟩ isComplete

def expected (t : Token) (text context : String) : Failure :=
  ⟨.malformed (text ++ ", " ++ context), some t.start⟩

/-- The part of a collection that follows: its elements, the failure that ends them early, and what
comes after the collection. -/
abbrev Part (α : Type) := List α × Option Failure × Option Remainder

def cons {α : Type} (a : α) (after : Option Remainder) (more : Remainder → Part α) : Part α :=
  match after with
  | none => ([a], none, none)
  | some c =>
    let (others, stop, after) := more c
    (a :: others, stop, after)

def stopped {α : Type} (failure : Failure) : Part α := ([], some failure, none)

def broken (failure : Failure) : Node × Option Remainder := (.unreadable failure false, none)

def endsBlockItem (k : TokenKind) : Bool := k = .entry ∨ k = .blockEnd

def endsPart (k : TokenKind) : Bool := k = .key ∨ k = .value ∨ k = .blockEnd

def endsFlowItem (k : TokenKind) : Bool := k = .comma ∨ k = .flowSequenceEnd

def endsFlowPart (k : TokenKind) : Bool := k = .comma ∨ k = .flowMappingEnd

def emptyContent (block : Bool) (p : Remainder.Properties) (slot : Option Nat) (named : Remainder)
    (t : Token) : Node × Option Remainder :=
  if p.anchor.isNone ∧ p.tag.isNone then
    broken (expected t "did not find expected node content"
      (if block then "while parsing a block node" else "while parsing a flow node"))
  else
    let n := tagNode p.tag (.scalar (scalarValue p.tag [] true) (some "") (some p.start))
    (n, some (named.complete slot n))

mutual

/-- The next node. `block` says whether a collection in blocks may begin here, and `indentless` whether
items may stand in the column of the mapping around them. -/
def node : Nat → Bool → Bool → Nat → Remainder → Node × Option Remainder
  | 0, _, _, _, _ => broken ⟨.unexpectedEnd, none⟩
  | fuel + 1, block, indentless, depth, c =>
    match c.peek with
    | .error failure => broken failure
    | .ok t =>
      match t.kind with
      | .alias name =>
        match c.aliased? name with
        | some n => (n, some c.advance)
        | none => broken ⟨.malformed "unknown anchor", some t.start⟩
      | _ =>
        match c.properties with
        | .error failure => broken failure
        | .ok (p, c) => content fuel block indentless depth p c

def content : Nat → Bool → Bool → Nat → Remainder.Properties → Remainder → Node × Option Remainder
  | 0, _, _, _, _, _ => broken ⟨.unexpectedEnd, none⟩
  | fuel + 1, block, indentless, depth, p, c =>
    match c.peek with
    | .error failure => broken failure
    | .ok t =>
      let (slot, named) := c.name p.anchor
      let finish (n : Node) (after : Option Remainder) : Node × Option Remainder :=
        let n := tagNode p.tag n
        (n, after.map fun c => c.complete slot n)
      let ofItems (part : Part Node) : Node × Option Remainder :=
        let (items, stop, after) := part
        finish (nest depth p.start (.sequence items stop (some p.start)) after.isSome) after
      let ofEntries (part : Part (Node × Node)) : Node × Option Remainder :=
        let (entries, stop, after) := part
        finish (nest depth p.start (.mapping entries stop (some p.start)) after.isSome) after
      match t.kind with
      | .scalar text isPlain =>
        let tag := if p.tag = some ['!'] then none else p.tag
        let value := scalarValue tag text isPlain
        let n := tagNode tag (.scalar value (some (String.ofList text)) (some p.start))
        (n, some ((named.complete slot n).advance))
      | .flowSequence => ofItems (flowItems fuel true (depth + 1) named.advance)
      | .flowMapping => ofEntries (flowEntries fuel true (depth + 1) named.advance)
      | .entry =>
        if indentless then ofItems (indentlessItems fuel (depth + 1) named)
        else emptyContent block p slot named t
      | .blockSequence =>
        if block then ofItems (blockItems fuel (depth + 1) named.advance)
        else emptyContent block p slot named t
      | .blockMapping =>
        if block then ofEntries (blockEntries fuel (depth + 1) named.advance)
        else emptyContent block p slot named t
      | _ => emptyContent block p slot named t

def blockItems : Nat → Nat → Remainder → Part Node
  | 0, _, _ => stopped ⟨.unexpectedEnd, none⟩
  | fuel + 1, depth, c =>
    match c.peek with
    | .error failure => stopped failure
    | .ok t =>
      match t.kind with
      | .entry =>
        match c.advance.peek with
        | .error failure => stopped failure
        | .ok next =>
          let (item, after) :=
            if endsBlockItem next.kind then (emptyNode t.stop, some c.advance)
            else node fuel true false depth c.advance
          cons item after (blockItems fuel depth)
      | .blockEnd => ([], none, some c.advance)
      | _ =>
        stopped (expected t "did not find expected '-' indicator" "while parsing a block collection")

def indentlessItems : Nat → Nat → Remainder → Part Node
  | 0, _, _ => stopped ⟨.unexpectedEnd, none⟩
  | fuel + 1, depth, c =>
    match c.peek with
    | .error failure => stopped failure
    | .ok t =>
      match t.kind with
      | .entry =>
        match c.advance.peek with
        | .error failure => stopped failure
        | .ok next =>
          let (item, after) :=
            if next.kind = .entry ∨ endsPart next.kind then (emptyNode t.stop, some c.advance)
            else node fuel true false depth c.advance
          cons item after (indentlessItems fuel depth)
      | _ => ([], none, some c)

def blockEntries : Nat → Nat → Remainder → Part (Node × Node)
  | 0, _, _ => stopped ⟨.unexpectedEnd, none⟩
  | fuel + 1, depth, c =>
    match c.peek with
    | .error failure => stopped failure
    | .ok t =>
      match t.kind with
      | .key =>
        match c.advance.peek with
        | .error failure => stopped failure
        | .ok next =>
          let (key, after) :=
            if endsPart next.kind then (emptyNode t.stop, some c.advance)
            else node fuel true true depth c.advance
          match after with
          | none => ([(key, key)], none, none)
          | some c =>
            let (value, after) := blockValue fuel depth c
            cons (key, value) after (blockEntries fuel depth)
      | .blockEnd => ([], none, some c.advance)
      | _ => stopped (expected t "did not find expected key" "while parsing a block mapping")

def blockValue : Nat → Nat → Remainder → Node × Option Remainder
  | 0, _, _ => broken ⟨.unexpectedEnd, none⟩
  | fuel + 1, depth, c =>
    match c.peek with
    | .error failure => broken failure
    | .ok t =>
      if t.kind = .value then
        match c.advance.peek with
        | .error failure => broken failure
        | .ok next =>
          if endsPart next.kind then (emptyNode t.stop, some c.advance)
          else node fuel true true depth c.advance
      else (emptyNode t.start, some c)

def flowItems : Nat → Bool → Nat → Remainder → Part Node
  | 0, _, _, _ => stopped ⟨.unexpectedEnd, none⟩
  | fuel + 1, first, depth, c =>
    match c.peek with
    | .error failure => stopped failure
    | .ok t =>
      if t.kind = .flowSequenceEnd then ([], none, some c.advance)
      else if ¬first ∧ t.kind ≠ .comma then
        stopped (expected t "did not find expected ',' or ']'" "while parsing a flow sequence")
      else
        let c := if first then c else c.advance
        match c.peek with
        | .error failure => stopped failure
        | .ok t =>
          if t.kind = .flowSequenceEnd then ([], none, some c.advance)
          else
            let (item, after) :=
              if t.kind = .key then
                let (entry, stop, after) := flowPair fuel (depth + 1) c.advance
                (nest depth t.start (.mapping entry stop (some t.start)) after.isSome, after)
              else node fuel false false depth c
            cons item after (flowItems fuel false depth)

/-- The one entry of a mapping that is an item in flow. Without a key, the token after the mark of
the key is passed over. -/
def flowPair : Nat → Nat → Remainder → Part (Node × Node)
  | 0, _, _ => stopped ⟨.unexpectedEnd, none⟩
  | fuel + 1, depth, c =>
    match c.peek with
    | .error failure => stopped failure
    | .ok t =>
      let (key, after) :=
        if t.kind = .value ∨ endsFlowItem t.kind then (emptyNode t.stop, some c.advance)
        else node fuel false false depth c
      match after with
      | none => ([(key, key)], none, none)
      | some c =>
        let (value, after) := flowValue fuel endsFlowItem depth c
        ([(key, value)], none, after)

def flowValue : Nat → (TokenKind → Bool) → Nat → Remainder → Node × Option Remainder
  | 0, _, _, _ => broken ⟨.unexpectedEnd, none⟩
  | fuel + 1, ends, depth, c =>
    match c.peek with
    | .error failure => broken failure
    | .ok t =>
      if t.kind = .value then
        match c.advance.peek with
        | .error failure => broken failure
        | .ok next =>
          if ends next.kind then (emptyNode next.start, some c.advance)
          else node fuel false false depth c.advance
      else (emptyNode t.start, some c)

def flowEntries : Nat → Bool → Nat → Remainder → Part (Node × Node)
  | 0, _, _, _ => stopped ⟨.unexpectedEnd, none⟩
  | fuel + 1, first, depth, c =>
    match c.peek with
    | .error failure => stopped failure
    | .ok t =>
      if t.kind = .flowMappingEnd then ([], none, some c.advance)
      else if ¬first ∧ t.kind ≠ .comma then
        stopped (expected t "did not find expected ',' or '\x7d'" "while parsing a flow mapping")
      else
        let c := if first then c else c.advance
        match c.peek with
        | .error failure => stopped failure
        | .ok t =>
          if t.kind = .flowMappingEnd then ([], none, some c.advance)
          else
            let marked := t.kind = .key
            let c := if marked then c.advance else c
            match c.peek with
            | .error failure => stopped failure
            | .ok t =>
              let (key, after) :=
                if marked ∧ (t.kind = .value ∨ endsFlowPart t.kind) then
                  (emptyNode t.start, some c)
                else node fuel false false depth c
              match after with
              | none => ([(key, key)], none, none)
              | some c =>
                let (value, after) :=
                  if marked then flowValue fuel endsFlowPart depth c
                  else
                    match c.peek with
                    | .error failure => broken failure
                    | .ok t => (emptyNode t.start, some c)
                cons (key, value) after (flowEntries fuel false depth)

end

def directives : Nat → Bool → List (List Char × List Char) → Remainder → Reading Remainder
  | 0, _, _, c => .ok c
  | fuel + 1, versioned, handles, c => do
    let t ← c.peek
    match t.kind with
    | .version major minor =>
      if versioned then problem t.start "found duplicate %YAML directive" none
      else if major = 1 ∧ (minor = 1 ∨ minor = 2) then directives fuel true handles c.advance
      else problem t.start "found incompatible YAML document" none
    | .shorthand handle expansion =>
      if (handles.lookup handle).isSome then
        problem t.start "found duplicate %TAG directive" none
      else directives fuel versioned ((handle, expansion) :: handles) c.advance
    | _ => pure { c with handles := handles ++ standardHandles }

def isOver (c : Remainder) : Bool :=
  (c.tokens.dropWhile (·.kind = .documentEnd)).head?.any (·.kind = .textEnd)

def trailing (c : Remainder) : Option Failure :=
  match c.peek with
  | .error failure => some failure
  | .ok t =>
    let c := if t.kind = .documentEnd then c.advance else c
    if isOver c then none else some ⟨.severalDocuments, none⟩

def isOutside (k : TokenKind) : Bool :=
  match k with
  | .version .. | .shorthand .. | .documentStart | .documentEnd | .textEnd => true
  | _ => false

def root (c : Remainder) : Node × Option Remainder := node (4 * c.tokens.length + 8) true false 0 c

def markedRoot (c : Remainder) : Node × Option Remainder :=
  match c.peek with
  | .error failure => broken failure
  | .ok t => if isOutside t.kind then (emptyNode t.start, some c) else root c

/-- The first document of a text; a text without one ends where it should begin. -/
def firstDocument (c : Remainder) : Reading (Node × Option Remainder) := do
  let t ← c.peek
  match t.kind with
  | .textEnd => throw ⟨.unexpectedEnd, some t.start⟩
  | .version .. | .shorthand .. | .documentStart =>
    let c ← directives (c.tokens.length + 1) false [] c
    let t ← c.peek
    if t.kind = .documentStart then pure (markedRoot c.advance)
    else problem t.start "did not find expected <document start>" none
  | _ => pure (root { c with handles := standardHandles })

def document (text : String) : Whole :=
  let (tokens, failure) := tokens text
  match firstDocument ⟨tokens, failure, [], [], #[]⟩ with
  | .error failure => ⟨.unreadable failure false, none⟩
  | .ok (n, after) => ⟨n, after.bind trailing⟩

def decode {α : Type} (read : Node → Reading α) (text : String) : Reading α :=
  (document text).decode read

end CoverageQuery.Yaml
