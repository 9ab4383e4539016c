import CoverageQuery.Query.Value

/-!
# Subsets and constructed domains

A subset cuts one axis at a point or to a range, written `axis(start)` or `axis(start:stop)`. A
constructor makes a new coverage over a domain of subsets: each axis has an iterator variable of its
own, and an expression in these variables gives the values.
-/
namespace CoverageQuery

structure Subset where
  axis : String
  start : Coordinate
  stop : Option Coordinate
  deriving DecidableEq

namespace Subset

def point (axis : String) (start : Coordinate) : Subset := ⟨axis, start, none⟩

def range (axis : String) (start stop : Coordinate) : Subset := ⟨axis, start, some stop⟩

def isPoint (s : Subset) : Bool := s.stop.isNone

def boundsText (s : Subset) : String :=
  match s.stop with
  | some stop => s.start.render ++ ":" ++ stop.render
  | none => s.start.render

def render (s : Subset) : String := s.axis ++ "(" ++ s.boundsText ++ ")"

def renderAll (subsets : List Subset) : String :=
  ", ".intercalate (subsets.map render)

end Subset

structure Constructor where
  name : String
  domain : List Subset
  values : String
  deriving DecidableEq

namespace Constructor

def iteratorName (axis : String) : String := "$p" ++ axis

def bindingText (s : Subset) : String := iteratorName s.axis ++ " " ++ s.render

def render (c : Constructor) : String :=
  "coverage " ++ c.name ++ "\nover " ++ ", ".intercalate (c.domain.map bindingText)
    ++ "\nvalues " ++ c.values

def toExpression (c : Constructor) : Expression := .raw c.render

end Constructor
end CoverageQuery
