import CoverageQuery.Query.Basic

/-!
# The text of a query

A query is written in clauses, one to a line: the coverages it runs over, the subset bound to a
variable unless it is empty, and the value to return. The value is the iterator or an expression in
parentheses, followed by the subset variable; a switch is written branch by branch in place of the
value. Only a query without coverages has no text.
-/
namespace CoverageQuery.Query

def subsetVariable : String := "$subset"

def forClause (coverages : List String) : Except QueryError String :=
  match coverages with
  | [] => .error .missingCoverage
  | [single] => .ok ("for " ++ iterator ++ " in ( " ++ single ++ " )")
  | several => .ok ("for " ++ iterator ++ " in (" ++ ",".intercalate several ++ ")")

def letClause (subset : List Subset) : List String :=
  if subset.isEmpty then []
  else ["let " ++ subsetVariable ++ " := [" ++ Subset.renderAll subset ++ "]"]

def subsetSuffix (subset : List Subset) : String :=
  if subset.isEmpty then "" else " [ " ++ subsetVariable ++ " ]"

def valueText (value : Expression) : String :=
  if value.isIterator then iterator else "( " ++ value.render ++ " )"

def returnClause (q : Query) : List String :=
  let suffix := subsetSuffix q.subset
  let returned := valueText q.value ++ suffix
  match q.mode with
  | .plain => ["return ( " ++ returned ++ " )"]
  | .aggregate m => ["return " ++ m.name ++ " ( " ++ returned ++ " )"]
  | .encode f => ["return encode ( " ++ returned ++ " , \"" ++ f.mediaType ++ "\" )"]
  | .switch s => "return (" :: s.lines ++ [")" ++ suffix]

def render (q : Query) : Except QueryError String := do
  let first ← forClause q.coverages
  pure ("\n".intercalate (first :: letClause q.subset ++ q.returnClause))

end CoverageQuery.Query
