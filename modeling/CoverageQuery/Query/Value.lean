import CoverageQuery.Calendar
import CoverageQuery.Number.Layout
import CoverageQuery.Number.Integer
import CoverageQuery.Text.Blank
import CoverageQuery.Text.Delimiters

/-!
# Coordinates and expressions

A coordinate is one bound of a subset: a whole number, a floating-point number, raw text that stands
in the query as it is, or a text that stands in double quotes. An expression is a number or raw text.
A literal coordinate and a checked expression are accepted only when they cannot run into the query
around them: a literal holds no double quote, and a checked expression has balanced delimiters.
-/
namespace CoverageQuery

inductive QueryError where
  | missingCoverage
  | invalidEncoding (name : String)
  | invalidAggregation (name : String)
  | invalidLiteral (text : String)
  | unbalancedExpression (text : String)
  deriving DecidableEq, Repr

def QueryError.message : QueryError → String
  | missingCoverage => "No coverage specified"
  | invalidEncoding name => "Invalid encoding type: " ++ name
  | invalidAggregation name => "Invalid aggregation method: " ++ name
  | invalidLiteral text => "Literal contains a double quote: " ++ text
  | unbalancedExpression text => "Unbalanced delimiters in expression: " ++ text

def QueryError.ofRendering : QueryError → Bool
  | missingCoverage => true
  | _ => false

/-- A number in a query: whole when it is written so and fits in sixty-four bits, else floating. -/
inductive Quantity where
  | integer (n : Int64)
  | float (x : Binary64)
  deriving DecidableEq

inductive Coordinate where
  | integer (n : Int64)
  | float (x : Binary64)
  | raw (text : String)
  | text (text : String)
  deriving DecidableEq

inductive Expression where
  | integer (n : Int64)
  | float (x : Binary64)
  | raw (text : String)
  deriving DecidableEq

def integerText (n : Int64) : String := String.ofList (Integer.write n.toInt)

namespace Coordinate

def ofQuantity : Quantity → Coordinate
  | .integer n => integer n
  | .float x => float x

def literal (text : String) : Except QueryError Coordinate :=
  if '"' ∈ text.toList then .error (.invalidLiteral text) else .ok (.text text)

def unbounded : Coordinate := .raw "*"

def ofDate (d : Date) : Coordinate := .text (String.ofList d.text)

def ofMoment (d : Date) (t : TimeOfDay) : Coordinate := .text (String.ofList (momentText d t))

def isNumeric : Coordinate → Bool
  | integer _ | float _ => true
  | _ => false

def render : Coordinate → String
  | integer n => integerText n
  | float x => NumberLayout.query.render x
  | raw t => t
  | text t => "\"" ++ t ++ "\""

end Coordinate

def iterator : String := "$c"

namespace Expression

def ofQuantity : Quantity → Expression
  | .integer n => integer n
  | .float x => float x

def ofIterator : Expression := .raw iterator

instance : Inhabited Expression := ⟨ofIterator⟩

def checked (text : String) : Except QueryError Expression :=
  if Text.balanced text.toList then .ok (.raw text) else .error (.unbalancedExpression text)

def isIterator : Expression → Bool
  | raw t => Text.trim t.toList = iterator.toList
  | _ => false

def render : Expression → String
  | integer n => integerText n
  | float x => NumberLayout.query.render x
  | raw t => t

end Expression
end CoverageQuery
