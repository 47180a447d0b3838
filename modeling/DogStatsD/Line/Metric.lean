import DogStatsD.Context
import DogStatsD.Decimal.Layout
import DogStatsD.Line.Options

/-!
# Metric Lines

A metric line is `name:value|type`, with more fields behind it as they apply:
`|@rate`, `|#tags`, `|c:container`, `|Ttimestamp`, `|card:cardinality`. What stands before the value
is the header and what stands behind it the trailer; a batch has several values between the two,
separated by colons.
-/

namespace DogStatsD.Line

/-- What stands on a metric line before its value: the name in its namespace, and a colon. The name
is written as it is. -/
def header (o : Options) (name : String) : String :=
  o.metricNamespace.getD "" ++ name ++ ":"

/-- The field of the rate. A rate of one is implied, as is a larger one. -/
def rateField (rate : Float) : String :=
  if rate < 1.0 then "|@" ++ Decimal.ofFloat rate else ""

/-- What stands on a metric line behind its value, with the newline that ends it. -/
def trailer (o : Options) (kind : Kind) (tags : List String) (rate : Float)
    (cardinality : Option Cardinality) (timestamp : Option Nat) : String :=
  "|" ++ kind.mark ++ rateField rate ++ o.tagField tags ++ o.containerField
    ++ field "|T" (timestamp.map Decimal.ofNat) ++ o.cardinalityField cardinality ++ "\n"

def valueText : Value → String
  | .gauge v | .histogram v | .distribution v | .timing v => Decimal.ofFloat v
  | .count v => Decimal.ofInt v.toInt
  | .set v => dropNewlines v

/-- The line of a metric sample. -/
def ofMetric (o : Options) (m : Metric) : String :=
  header o m.name ++ valueText m.value
    ++ trailer o m.kind m.tags m.rate m.cardinality m.timestamp

/-- What stands behind the values on the line of a batch. -/
def batchTrailer (o : Options) (b : Batch) : String :=
  trailer o b.kind b.context.tags b.rate b.context.cardinality none

/-- The line of a batch: all of its values with colons between them. -/
def ofBatch (o : Options) (b : Batch) : String :=
  header o b.context.name ++ ":".intercalate (b.values.map Decimal.ofFloat) ++ batchTrailer o b

end DogStatsD.Line
