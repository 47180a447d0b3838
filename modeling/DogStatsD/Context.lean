import DogStatsD.Metric

/-!
# Contexts

Samples are merged per context: the name, the cardinality in force and the sequence of tags. Tags in
another order, or a tag more, make another context.
-/

namespace DogStatsD

/-- What samples have in common that are merged. -/
structure Context where
  name : String
  cardinality : Option Cardinality := none
  tags : List String := []
  deriving DecidableEq, Inhabited

namespace Context

/-- The context of a metric sample. The sample's own cardinality goes before the default one. -/
def ofMetric (default : Option Cardinality) (m : Metric) : Context where
  name := m.name
  cardinality := m.cardinality.or default
  tags := m.tags

/-- The unsampled metric with a merged value. -/
def metric (c : Context) (value : Value) : Metric where
  name := c.name
  value := value
  tags := c.tags
  cardinality := c.cardinality

end Context

/-- The observations kept for one context, which go out as multi-value lines. -/
structure Batch where
  /-- A histogram, distribution or timing. -/
  kind : Kind
  context : Context
  values : List Float
  /-- The share of the observations that the values stand for. -/
  rate : Float

/-- The batch of the first `count` values. -/
def Batch.take (b : Batch) (count : Nat) : Batch :=
  { b with values := b.values.take count }

/-- The batch without its first `count` values. -/
def Batch.drop (b : Batch) (count : Nat) : Batch :=
  { b with values := b.values.drop count }

end DogStatsD
