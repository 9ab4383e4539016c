import CoverageQuery.Text.Form

/-!
# Paths of URLs

A path is a list of segments with a slash before each. Reading a path drops segments that are a single
dot, and lets a double dot drop the segment before it; a dot may be percent-encoded. Where such a
segment is the last one, an empty segment takes its place. Characters that may not stand in a path,
query, fragment or user name are percent-encoded; each of these places has its own set.
-/
namespace CoverageQuery.Url

def isControl (c : Char) : Bool := c.toNat < 0x20 ∨ 0x7F ≤ c.toNat

def inFragmentSet (c : Char) : Bool := isControl c ∨ c ∈ " \"<>`".toList

def inPathSet (c : Char) : Bool := inFragmentSet c ∨ c ∈ "#?\x7b\x7d".toList

def inUserSet (c : Char) : Bool := inPathSet c ∨ c ∈ "/:;=@[\\]^|".toList

def inQuerySet (c : Char) : Bool := isControl c ∨ c ∈ " \"#<>'".toList

def percentEncode (inSet : Char → Bool) (cs : List Char) : List Char :=
  cs.flatMap fun c =>
    if inSet c then (String.utf8EncodeChar c).flatMap Form.percentByte else [c]

/-- The segment with percent-encoded dots written out, if it is made of dots alone. -/
def dots? : List Char → Option Nat
  | [] => some 0
  | '.' :: rest => (dots? rest).map (· + 1)
  | '%' :: '2' :: e :: rest => if e = 'e' ∨ e = 'E' then (dots? rest).map (· + 1) else none
  | _ => none

/-- The segments so far, latest first, after one more; `last` holds for the last one. -/
def addSegment (done : List (List Char)) (segment : List Char) (last : Bool) : List (List Char) :=
  match dots? segment with
  | some 1 => if last then [] :: done else done
  | some 2 => if last then [] :: done.tail else done.tail
  | _ => percentEncode inPathSet segment :: done

def addSegments (done : List (List Char)) : List (List Char) → List (List Char)
  | [] => done
  | [segment] => addSegment done segment true
  | segment :: rest => addSegments (addSegment done segment false) rest

def readPath (cs : List Char) : List (List Char) :=
  (addSegments [] (cs.splitOnP fun c => c = '/' ∨ c = '\\')).reverse

def pathText (segments : List (List Char)) : List Char :=
  segments.flatMap ('/' :: ·)

end CoverageQuery.Url
