import CoverageQuery.Query.Render

/-!
# Templates

Ready-made queries for common questions about one coverage: values and statistics in a region, a count
of cells on one side of a threshold, a time series or a map, and images that are coloured by class or
computed from nothing but their coordinates.
-/
namespace CoverageQuery

inductive Template where
  | basicQuery
  | singleValue (subset : List Subset)
  | minimum (subset : List Subset)
  | maximum (subset : List Subset)
  | average (subset : List Subset)
  | countBelow (subset : List Subset) (threshold : Binary64)
  | countAbove (subset : List Subset) (threshold : Binary64)
  | series (subset : List Subset)
  | map (subset : List Subset)
  | celsiusToKelvin (subset : List Subset)
  | colorMap (subset : List Subset)
  | gradientImage (size : UInt32)

namespace Template

def noData : String := "99999"

def color (red green blue : Nat) : Expression :=
  .raw ("\x7bred: " ++ toString red ++ "; green: " ++ toString green ++ "; blue: " ++ toString blue
    ++ "\x7d")

def temperatureClasses (cell : String) : Switch :=
  Switch.ofCases none [
    .guarded (cell ++ " = " ++ noData) (color 255 255 255),
    .guarded ("18 > " ++ cell) (color 0 0 255),
    .guarded ("23 > " ++ cell) (color 255 255 0),
    .guarded ("30 > " ++ cell) (color 255 140 0),
    .default (color 255 0 0)]

def cellText (subset : List Subset) : String :=
  if subset.isEmpty then iterator else iterator ++ "[" ++ Subset.renderAll subset ++ "]"

def gradient (size : UInt32) : Constructor :=
  let stop := Coordinate.integer (Int64.ofNat size.toNat)
  ⟨"gradient", [.range "x" (.integer 0) stop, .range "y" (.integer 0) stop], "$px + $py"⟩

def thresholdText (comparison : String) (threshold : Binary64) : Expression :=
  .raw (iterator ++ comparison ++ NumberLayout.query.render threshold)

def query (coverage : String) : Template → Query
  | basicQuery => ⟨[coverage], [], .integer 1, .plain⟩
  | singleValue s => ⟨[coverage], s, .ofIterator, .plain⟩
  | minimum s => ⟨[coverage], s, .ofIterator, .aggregate .min⟩
  | maximum s => ⟨[coverage], s, .ofIterator, .aggregate .max⟩
  | average s => ⟨[coverage], s, .ofIterator, .aggregate .avg⟩
  | countBelow s t => ⟨[coverage], s, thresholdText " < " t, .aggregate .count⟩
  | countAbove s t => ⟨[coverage], s, thresholdText " > " t, .aggregate .count⟩
  | series s => ⟨[coverage], s, .ofIterator, .encode .csv⟩
  | map s => ⟨[coverage], s, .ofIterator, .encode .png⟩
  | celsiusToKelvin s => ⟨[coverage], s, .raw "$c + 273.15", .encode .csv⟩
  | colorMap s => ⟨[coverage], [], .raw (temperatureClasses (cellText s)).render, .encode .png⟩
  | gradientImage size => ⟨[coverage], [], (gradient size).toExpression, .encode .png⟩

end Template
end CoverageQuery
