import DogStatsD.Cardinality
import DogStatsD.Line.Text

/-!
# Options of Lines

The settings of a client that show on the lines it writes, and the fields that come from them.
-/

namespace DogStatsD.Line

/-- Settings that apply to every line. -/
structure Options where
  /-- Put in front of every metric name as it is. -/
  metricNamespace : Option String := none
  /-- Tags that go before those of the sample. -/
  globalTags : List String := []
  containerId : Option String := none
  cardinality : Option Cardinality := none
  deriving DecidableEq, Inhabited

namespace Options

/-- The field of tags: the global ones, then the own ones. It is left out if there are none. -/
def tagField (o : Options) (tags : List String) : String :=
  match o.globalTags ++ tags with
  | [] => ""
  | all => "|#" ++ ",".intercalate (all.map dropNewlines)

/-- The field of the container, written as it is. -/
def containerField (o : Options) : String :=
  field "|c:" o.containerId

/-- The field of the cardinality: the own one before the default one. -/
def cardinalityField (o : Options) (own : Option Cardinality) : String :=
  field "|card:" ((own.or o.cardinality).map Cardinality.name)

end Options

end DogStatsD.Line
