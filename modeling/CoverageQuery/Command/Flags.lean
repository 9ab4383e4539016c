import CoverageQuery.Files
import CoverageQuery.Number.Float
import CoverageQuery.Query.Basic
import CoverageQuery.Stored.Query
import CoverageQuery.Text.Quotes

/-!
# Query flags

Flags describe a query in short texts: coverages, subsets of axes such as `Lat=-20:30`, a value to
return and a mode. They are laid over the query of a file, or over one without coverages: each field
that is given replaces that of the query below. Numbers are read as numbers, a star as the open bound,
and every other bound is a literal.
-/
namespace CoverageQuery

inductive FlagError where
  | noEquals (subset : String)
  | noAxis (subset : String)
  | severalColons (subset : String)
  | emptyBound
  | query (cause : QueryError)
  | unreadableFile (path : String) (cause : FileFault)
  | malformedJson (path : String) (cause : Document.Failure)
  | malformedYaml (path : String) (cause : Document.Failure)
  deriving DecidableEq, Repr

namespace FlagError

def jsonText (failure : Document.Failure) : String :=
  let place := failure.place.getD ⟨0, 0⟩
  failure.fault.message ++ " at line " ++ toString (place.line + 1) ++ " column "
    ++ toString place.column

def chain : FlagError → List String
  | noEquals s => ["Subset '" ++ s ++ "' must look like axis=start[:stop]"]
  | noAxis s => ["Subset '" ++ s ++ "' has no axis name"]
  | severalColons s => ["Subset '" ++ s ++ "' has more than one ':' outside quotes"]
  | emptyBound => ["Empty subset bound"]
  | query cause => [cause.message]
  | unreadableFile path cause => ["Failed to read query file: " ++ path, cause.message]
  | malformedJson path cause => ["Failed to parse query file: " ++ path, jsonText cause]
  | malformedYaml path cause => ["Failed to parse query file: " ++ path, cause.text]

end FlagError

/-- A number as flags have them; those that are not finite are texts. -/
def Quantity.read? (cs : List Char) : Option Quantity :=
  ((Integer.readInt64? cs).map integer).or ((Binary64.readFinite? cs).map float)

namespace Coordinate

def unquoted? (cs : List Char) : Option (List Char) :=
  match cs with
  | '"' :: rest => if rest.getLast? = some '"' then some rest.dropLast else none
  | _ => none

def ofFlag (cs : List Char) : Except FlagError Coordinate :=
  let text := Text.trim cs
  let literal (cs : List Char) := (Coordinate.literal (String.ofList cs)).mapError FlagError.query
  if text.isEmpty then .error .emptyBound
  else if text = ['*'] then .ok unbounded
  else
    match unquoted? text with
    | some inner => literal inner
    | none =>
      match Quantity.read? text with
      | some n => .ok (ofQuantity n)
      | none => literal text

end Coordinate

namespace Expression

def ofFlag (text : String) : Except FlagError Expression :=
  let trimmed := Text.trim text.toList
  match Quantity.read? trimmed with
  | some n => .ok (ofQuantity n)
  | none => (Expression.checked (String.ofList trimmed)).mapError FlagError.query

end Expression

namespace Subset

def ofFlag (text : String) : Except FlagError Subset :=
  match Text.splitOnce? '=' text.toList with
  | none => .error (.noEquals text)
  | some (before, bounds) =>
    let axis := Text.trim before
    if axis.isEmpty then .error (.noAxis text)
    else
      match Text.splitOutsideQuotes ':' bounds with
      | [start] => do
        let start ← Coordinate.ofFlag start
        pure (.point (String.ofList axis) start)
      | [start, stop] => do
        let start ← Coordinate.ofFlag start
        let stop ← Coordinate.ofFlag stop
        pure (.range (String.ofList axis) start stop)
      | _ => .error (.severalColons text)

end Subset

structure QueryFlags where
  coverages : List String := []
  subsets : List String := []
  value : Option String := none
  aggregate : Option String := none
  encode : Option String := none
  queryFile : Option String := none
  deriving DecidableEq, Repr

namespace QueryFlags

/-- The query in a file, which is JSON if its name says so and YAML otherwise. -/
def load (files : Files) (path : String) : Except FlagError Query :=
  match files.readText path with
  | .error cause => .error (.unreadableFile path cause)
  | .ok text =>
    if extension? path = some "json" then
      (Query.ofJsonText text).mapError fun failure =>
        .malformedJson path (Json.located (Query.ofNode .streamed) text failure)
    else (Query.ofYamlText text).mapError (.malformedYaml path)

def base (f : QueryFlags) (files : Files) : Except FlagError Query :=
  match f.queryFile with
  | some path => load files path
  | none => .ok (Query.ofCoverages [])

def coverageChange (f : QueryFlags) : List Query.Operation :=
  if f.coverages.isEmpty then [] else [.setCoverages f.coverages]

def subsetChange (f : QueryFlags) : Except FlagError (List Query.Operation) :=
  if f.subsets.isEmpty then .ok []
  else (f.subsets.mapM Subset.ofFlag).map fun subset => [.setSubset subset]

def valueChange (f : QueryFlags) : Except FlagError (List Query.Operation) :=
  match f.value with
  | none => .ok []
  | some text => (Expression.ofFlag text).map fun value => [.setValue value]

def aggregateChange (f : QueryFlags) : Except FlagError (List Query.Operation) :=
  match f.aggregate with
  | none => .ok []
  | some name => ((Aggregation.ofName name).mapError .query).map fun method => [.aggregate method]

def encodeChange (f : QueryFlags) : Except FlagError (List Query.Operation) :=
  match f.encode with
  | none => .ok []
  | some name => ((Encoding.ofName name).mapError .query).map fun format => [.encode format]

/-- The changes that flags ask for; an encoding comes after an aggregation and replaces it. -/
def changes (f : QueryFlags) : Except FlagError (List Query.Operation) := do
  let subset ← f.subsetChange
  let value ← f.valueChange
  let aggregate ← f.aggregateChange
  let encode ← f.encodeChange
  pure (f.coverageChange ++ subset ++ value ++ aggregate ++ encode)

def build (f : QueryFlags) (files : Files) : Except FlagError Query := do
  let q ← f.base files
  let changes ← f.changes
  pure (q.run changes)

end QueryFlags
end CoverageQuery
