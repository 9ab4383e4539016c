import CoverageQuery.Stored.Mode
import CoverageQuery.Json.Reader
import CoverageQuery.Yaml.Reader

/-!
# Stored queries

A query is stored as a record of its coverages, its subset unless that is empty, its value and its
mode. Only the coverages are required; the other fields default to those of a plain query. Reading
what was written gives the query back as long as all its numbers are finite and the reader rounds them
to themselves.
-/
namespace CoverageQuery.Query

open Document

structure Fields where
  coverages : Option (List String)
  subset : Option (List Subset)
  value : Option Expression
  mode : Option Mode

def record (dialect : Dialect) : Record Fields Query where
  expected := "struct Query"
  slots := [⟨"coverages", Node.list Node.text, Fields.coverages,
      fun cs s => { s with coverages := some cs }⟩,
    ⟨"subset", Node.list (Subset.ofNode dialect), Fields.subset,
      fun ss s => { s with subset := some ss }⟩,
    ⟨"return_value", Expression.ofNode, Fields.value, fun e s => { s with value := some e }⟩,
    ⟨"mode", Mode.ofNode dialect, Fields.mode, fun m s => { s with mode := some m }⟩]
  empty := ⟨none, none, none, none⟩
  finish s := match s.coverages with
    | none => .error 0
    | some coverages =>
      .ok ⟨coverages, s.subset.getD [], s.value.getD Expression.ofIterator, s.mode.getD .plain⟩

def ofNode (dialect : Dialect) (n : Node) : Reading Query := (record dialect).read dialect n

def subsetEntry (subset : List Subset) : List (String × Json) :=
  if subset.isEmpty then [] else [("subset", .array (subset.map Subset.toJson))]

def toJson (q : Query) : Json :=
  .object (("coverages", .array (q.coverages.map .string)) :: subsetEntry q.subset
    ++ [("return_value", q.value.toJson), ("mode", q.mode.toJson)])

def store (q : Query) : String := q.toJson.render

def ofJsonText (text : String) : Reading Query := Json.decode (ofNode .streamed) text

def ofYamlText (text : String) : Reading Query := Yaml.decode (ofNode .onDemand) text

end CoverageQuery.Query
