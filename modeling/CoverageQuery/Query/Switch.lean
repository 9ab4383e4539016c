import CoverageQuery.Query.Value

/-!
# Switches

A switch has guarded branches in order and at most one default result. Branches arrive as cases, in
any order; a case flagged as the default sets the default, replacing an earlier one, and its condition
is dropped. The guarded branches of a switch therefore never include a default, and the default always
comes last in the text.
-/
namespace CoverageQuery

structure Case where
  isDefault : Bool
  condition : String
  result : Expression
  deriving DecidableEq

namespace Case

def guarded (condition : String) (result : Expression) : Case := ⟨false, condition, result⟩

def default (result : Expression) : Case := ⟨true, "", result⟩

end Case

structure Branch where
  condition : String
  result : Expression
  deriving DecidableEq

def Branch.toCase (b : Branch) : Case := .guarded b.condition b.result

def Branch.line (b : Branch) : String :=
  "case " ++ b.condition ++ " return " ++ b.result.render

structure Switch where
  branches : List Branch
  fallback : Option Expression
  deriving DecidableEq

namespace Switch

def empty : Switch := ⟨[], none⟩

def push (s : Switch) (c : Case) : Switch :=
  if c.isDefault then { s with fallback := some c.result }
  else { s with branches := s.branches ++ [⟨c.condition, c.result⟩] }

def ofCases (fallback : Option Expression) (cases : List Case) : Switch :=
  cases.foldl push ⟨[], fallback⟩

def isEmpty (s : Switch) : Bool := s.branches.isEmpty && s.fallback.isNone

def fallbackLines (s : Switch) : List String :=
  match s.fallback with
  | some result => ["default return " ++ result.render]
  | none => []

def lines (s : Switch) : List String :=
  "switch" :: s.branches.map Branch.line ++ s.fallbackLines

def render (s : Switch) : String := "\n".intercalate s.lines

end Switch
end CoverageQuery
