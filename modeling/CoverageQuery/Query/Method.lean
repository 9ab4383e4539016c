import CoverageQuery.Query.Value

/-!
# Aggregations and encodings

An aggregation condenses a coverage to one number; an encoding is a format that the server can answer
in. Both are chosen by name, without regard to case or to blanks around it. A refused name is reported
as it was given.
-/
namespace CoverageQuery

inductive Aggregation where
  | avg
  | sum
  | min
  | max
  | count
  deriving DecidableEq, Repr

inductive Encoding where
  | png
  | jpeg
  | tiff
  | gif
  | csv
  deriving DecidableEq, Repr

def normalName (text : String) : String :=
  String.ofList (Text.lower (Text.trim text.toList))

namespace Aggregation

def name : Aggregation → String
  | avg => "avg"
  | sum => "sum"
  | min => "min"
  | max => "max"
  | count => "count"

def all : List Aggregation := [avg, sum, min, max, count]

def names : List (String × Aggregation) :=
  [("avg", avg), ("average", avg), ("sum", sum), ("add", sum), ("min", min), ("minimum", min),
    ("max", max), ("maximum", max), ("count", count)]

def ofName (text : String) : Except QueryError Aggregation :=
  match names.lookup (normalName text) with
  | some m => .ok m
  | none => .error (.invalidAggregation text)

end Aggregation

namespace Encoding

def name : Encoding → String
  | png => "png"
  | jpeg => "jpeg"
  | tiff => "tiff"
  | gif => "gif"
  | csv => "csv"

def mediaType : Encoding → String
  | png => "image/png"
  | jpeg => "image/jpeg"
  | tiff => "image/tiff"
  | gif => "image/gif"
  | csv => "text/csv"

def extension : Encoding → String
  | png => "png"
  | jpeg => "jpg"
  | tiff => "tif"
  | gif => "gif"
  | csv => "csv"

def isImage (e : Encoding) : Bool := e ≠ csv

def all : List Encoding := [png, jpeg, tiff, gif, csv]

def names : List (String × Encoding) :=
  [("png", png), ("image/png", png), ("jpeg", jpeg), ("jpg", jpeg), ("image/jpeg", jpeg),
    ("tiff", tiff), ("tif", tiff), ("image/tiff", tiff), ("gif", gif), ("image/gif", gif),
    ("csv", csv), ("text/csv", csv)]

def ofName (text : String) : Except QueryError Encoding :=
  match names.lookup (normalName text) with
  | some e => .ok e
  | none => .error (.invalidEncoding text)

end Encoding
end CoverageQuery
