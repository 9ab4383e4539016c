import CoverageQuery.Query.Domain
import CoverageQuery.Query.Method
import CoverageQuery.Query.Switch

/-!
# Queries

A query names coverages, cuts them to a subset, and returns a value in one of four modes. Setting a
mode replaces the one that was active; dropping a mode has an effect only while it is the active one,
and leaves a plain query. A case goes to the active switch, or starts a switch when none is active.
Every change to a query is an operation, so that a history of changes is a list.
-/
namespace CoverageQuery

inductive Mode where
  | plain
  | aggregate (method : Aggregation)
  | encode (format : Encoding)
  | switch (block : Switch)
  deriving DecidableEq

structure Query where
  coverages : List String
  subset : List Subset
  value : Expression
  mode : Mode
  deriving DecidableEq

namespace Mode

def name : Mode → String
  | plain => "plain"
  | aggregate _ => "aggregate"
  | encode _ => "encode"
  | switch _ => "switch"

def aggregation? : Mode → Option Aggregation
  | aggregate m => some m
  | _ => none

def encoding? : Mode → Option Encoding
  | encode f => some f
  | _ => none

def switch? : Mode → Option Switch
  | switch s => some s
  | _ => none

def resetEncoding : Mode → Mode
  | encode _ => plain
  | m => m

def resetAggregation : Mode → Mode
  | aggregate _ => plain
  | m => m

def resetSwitch : Mode → Mode
  | switch _ => plain
  | m => m

def addCase (c : Case) : Mode → Mode
  | switch s => switch (s.push c)
  | _ => switch (Switch.empty.push c)

end Mode

namespace Query

def ofCoverages (coverages : List String) : Query :=
  ⟨coverages, [], Expression.ofIterator, .plain⟩

inductive Operation where
  | setCoverages (coverages : List String)
  | setSubset (subset : List Subset)
  | clearSubset
  | setValue (value : Expression)
  | encode (format : Encoding)
  | resetEncoding
  | aggregate (method : Aggregation)
  | resetAggregation
  | addCase (case : Case)
  | setSwitch (block : Switch)
  | resetSwitch
  deriving DecidableEq

def apply (q : Query) : Operation → Query
  | .setCoverages coverages => { q with coverages }
  | .setSubset subset => { q with subset }
  | .clearSubset => { q with subset := [] }
  | .setValue value => { q with value }
  | .encode format => { q with mode := .encode format }
  | .resetEncoding => { q with mode := q.mode.resetEncoding }
  | .aggregate method => { q with mode := .aggregate method }
  | .resetAggregation => { q with mode := q.mode.resetAggregation }
  | .addCase c => { q with mode := q.mode.addCase c }
  | .setSwitch block => { q with mode := .switch block }
  | .resetSwitch => { q with mode := q.mode.resetSwitch }

def run (q : Query) (ops : List Operation) : Query := ops.foldl apply q

end Query
end CoverageQuery
