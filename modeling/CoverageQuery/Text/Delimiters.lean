/-!
# Balanced delimiters

A scan keeps the brackets that are open, innermost first, and whether it stands inside a string
literal. A double quote switches between inside and outside; inside, no other character matters.
Outside, a closing bracket must match the innermost open one. A text is balanced when its scan from
the start ends outside literals with nothing open.
-/
namespace CoverageQuery.Text

structure DelimiterScan where
  pending : List Char
  quoted : Bool
  deriving DecidableEq, Repr

namespace DelimiterScan

def start : DelimiterScan := ⟨[], false⟩

def opener? : Char → Option Char
  | ')' => some '('
  | ']' => some '['
  | '}' => some '{'
  | _ => none

def isOpener (c : Char) : Bool := c = '(' ∨ c = '[' ∨ c = '{'

def step (s : DelimiterScan) (c : Char) : Option DelimiterScan :=
  if c = '"' then some { s with quoted := !s.quoted }
  else if s.quoted then some s
  else if isOpener c then some { s with pending := c :: s.pending }
  else
    match opener? c with
    | none => some s
    | some o => if s.pending.head? = some o then some { s with pending := s.pending.tail } else none

def run (s : DelimiterScan) (cs : List Char) : Option DelimiterScan :=
  cs.foldlM step s

end DelimiterScan

def balanced (cs : List Char) : Bool :=
  DelimiterScan.start.run cs = some DelimiterScan.start

theorem DelimiterScan.run_append (s : DelimiterScan) (a b : List Char) :
    s.run (a ++ b) = (s.run a).bind fun t => t.run b := by
  simp [DelimiterScan.run, List.foldlM_append]

end CoverageQuery.Text
