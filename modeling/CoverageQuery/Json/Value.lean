import CoverageQuery.Document.Node

/-!
# JSON values

A JSON value in memory, with object entries in order. Writing is compact: no blanks, entries in their
order, quotes, backslashes and control characters escaped and every other character as it is. Numbers
that are not finite have no JSON form and are written as null.
-/
namespace CoverageQuery

inductive Json where
  | null
  | boolean (b : Bool)
  | integer (n : Int)
  | float (x : Binary64)
  | string (s : String)
  | array (items : List Json)
  | object (entries : List (String × Json))
  deriving Repr

namespace Json

instance : Inhabited Json := ⟨null⟩

def escape (c : Char) : List Char :=
  if c = '"' then ['\\', '"']
  else if c = '\\' then ['\\', '\\']
  else if c = '\n' then ['\\', 'n']
  else if c = '\r' then ['\\', 'r']
  else if c = '\t' then ['\\', 't']
  else if c.toNat = 8 then ['\\', 'b']
  else if c.toNat = 12 then ['\\', 'f']
  else if c.toNat < 32 then
    ['\\', 'u', '0', '0', Digits.hexChar (c.toNat / 16), Digits.hexChar (c.toNat % 16)]
  else [c]

def quoted (s : String) : List Char :=
  '"' :: s.toList.flatMap escape ++ ['"']

def integerText (n : Int) : List Char :=
  (if n < 0 then ['-'] else []) ++ Digits.write n.natAbs

def floatText (x : Binary64) : List Char :=
  if x.isFinite then NumberLayout.stored.text x else "null".toList

mutual

def text : Json → List Char
  | null => "null".toList
  | boolean b => if b then "true".toList else "false".toList
  | integer n => integerText n
  | float x => floatText x
  | string s => quoted s
  | array items => '[' :: itemsText items ++ [']']
  | object entries => '{' :: entriesText entries ++ ['}']

def itemsText : List Json → List Char
  | [] => []
  | [v] => text v
  | v :: rest => text v ++ ',' :: itemsText rest

def entriesText : List (String × Json) → List Char
  | [] => []
  | [(k, v)] => quoted k ++ ':' :: text v
  | (k, v) :: rest => quoted k ++ ':' :: text v ++ ',' :: entriesText rest

end

def render (v : Json) : String := String.ofList v.text

open Document

mutual

def toNode : Json → Node
  | null => .scalar .null none none
  | boolean b => .scalar (.boolean b) none none
  | integer n => .scalar (.integer n) none none
  | float x => .scalar (if x.isFinite then .float x else .null) none none
  | string s => .scalar (.text s) none none
  | array items => .sequence (itemNodes items) none none
  | object entries => .mapping (entryNodes entries) none none

def itemNodes : List Json → List Node
  | [] => []
  | v :: rest => toNode v :: itemNodes rest

def entryNodes : List (String × Json) → List (Node × Node)
  | [] => []
  | (k, v) :: rest => (.scalar (.text k) none none, toNode v) :: entryNodes rest

end

def optionalEntry (name : String) (value : Option Json) : List (String × Json) :=
  match value with
  | some v => [(name, v)]
  | none => []

end Json
end CoverageQuery
