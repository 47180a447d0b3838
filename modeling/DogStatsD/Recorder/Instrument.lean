import DogStatsD.Metric

/-!
# Instruments

Applications update named instruments. Instruments of one type are the same if they have one name
and the same labels, wherever each label stands among the others; their tags stand in the order of
the labels with which the instrument was first named.
-/

namespace DogStatsD

/-- A name with labels. -/
structure Key where
  name : String
  /-- Labels with their values, in the order given. -/
  labels : List (String × String) := []
  deriving DecidableEq, Inhabited

namespace Key

/-- The values that a list of labels gives to one label, in order: a label may be repeated. -/
def valuesOf (label : String) (labels : List (String × String)) : List String :=
  (labels.filter fun (l, _) => l == label).map Prod.snd

/-- Whether two lists of labels belong to the same instrument. Two labels may stand in either order.
Among more, labels of different names may change places, but the values of a repeated label keep
their order. -/
def sameLabels : List (String × String) → List (String × String) → Bool
  | [first, second], [first', second'] =>
    (first == first' && second == second') || (first == second' && second == first')
  | labels, labels' =>
    (labels ++ labels').all fun (label, _) => valuesOf label labels == valuesOf label labels'

/-- Whether two keys name the same instrument. -/
def same (a b : Key) : Bool :=
  a.name == b.name && sameLabels a.labels b.labels

/-- The tag of a label: label and value, or the label alone if its value is empty. -/
def labelTag (label : String × String) : String :=
  if label.2 = "" then label.1 else label.1 ++ ":" ++ label.2

def tags (k : Key) : List String :=
  k.labels.map labelTag

/-- The metric sample that reports a value for a key. -/
def metric (k : Key) (value : Value) : Metric :=
  { name := k.name, value, tags := k.tags }

end Key

/-- A counter that is either incremented or set to totals. -/
structure Counter where
  /-- Whether the last update was a total. -/
  absolute : Bool := false
  last : UInt64 := 0
  deriving DecidableEq, Inhabited

namespace Counter

/-- The largest count that can be sent. -/
def maxCount : Nat := Nat.pow 2 63 - 1

/-- A number as a count, which stops at the largest one. -/
def saturate (n : UInt64) : Int64 :=
  Int64.ofNat (min n.toNat maxCount)

/-- Add to the counter. The next total only sets a base line again. -/
def increment (c : Counter) (n : UInt64) : Int64 × Counter :=
  (saturate n, { c with absolute := false })

/-- Set the counter to a total. The first total only sets the base line; after that, what the total
has grown by is reported, and a total that has not grown reports nothing. -/
def setTotal (c : Counter) (total : UInt64) : Option Int64 × Counter :=
  (if c.absolute ∧ c.last < total then some (saturate (total - c.last)) else none,
    { absolute := true, last := total })

end Counter

/-- Instruments of one type by key, in the order in which they were first named. -/
structure Registry (α : Type) where
  /-- Keys as first named, and the state of their instruments. -/
  instruments : List (Key × α) := []

namespace Registry

variable {α : Type}

/-- Find the instrument of a key, or add a fresh one. Returns the key as it was first named. -/
def find (r : Registry α) (key : Key) (fresh : α) : Key × α :=
  (r.instruments.find? fun (k, _) => k.same key).getD (key, fresh)

def putInto (key : Key) (state : α) : List (Key × α) → List (Key × α)
  | [] => [(key, state)]
  | (k, old) :: rest =>
    if k.same key then (k, state) :: rest else (k, old) :: putInto key state rest

def put (r : Registry α) (key : Key) (state : α) : Registry α :=
  ⟨putInto key state r.instruments⟩

end Registry

end DogStatsD
