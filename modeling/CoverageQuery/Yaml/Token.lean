import CoverageQuery.Yaml.Cursor

/-!
# Tokens

A document is a sequence of tokens: marks that begin and end collections in blocks and in flow, keys
and values, anchors, tags and scalars. In blocks the beginnings and ends follow from the columns. A
token knows where it begins and ends.
-/
namespace CoverageQuery.Yaml

open Document (Place)

inductive TokenKind where
  | version (major minor : Nat)
  | shorthand (handle expansion : List Char)
  | documentStart
  | documentEnd
  | blockSequence
  | blockMapping
  | blockEnd
  | flowSequence
  | flowSequenceEnd
  | flowMapping
  | flowMappingEnd
  | entry
  | comma
  | key
  | value
  | alias (name : List Char)
  | anchor (name : List Char)
  | tag (handle suffix : List Char)
  | scalar (text : List Char) (isPlain : Bool)
  | textEnd
  deriving DecidableEq, Repr

structure Token where
  kind : TokenKind
  start : Place
  stop : Place
  deriving DecidableEq, Repr

end CoverageQuery.Yaml
