import DogStatsD.Cardinality
import DogStatsD.Metric
import DogStatsD.Proofs.Server.Reader

/-!
# The Grammar of Metric Lines

A strict reading of metric lines. Every line ends in a newline; the fields behind the type come in a
fixed order, each at most once, and there is nothing but these. A field that is there and empty is
not the same as a field that is not there.
-/

namespace DogStatsD

/-- The kind that a type mark stands for. -/
def Kind.ofMark? (mark : String) : Option Kind :=
  [gauge, count, set, histogram, distribution, timing].find? (·.mark = mark)

/-- The cardinality of a name, spelt exactly so. -/
def Cardinality.ofName? (name : String) : Option Cardinality :=
  [none, low, orchestrator, high].find? (·.name = name)

namespace Server

/-- What a metric line says. -/
structure Record where
  /-- The name in its namespace. -/
  name : String
  values : List String
  kind : Kind
  rate : Option String
  /-- No tags if there is no field of tags; an empty field holds one tag, which is empty. -/
  tags : List String
  container : Option String
  timestamp : Option Nat
  cardinality : Option Cardinality
  deriving DecidableEq

/-- The fields of a metric line behind its type, each without its mark. -/
structure Fields where
  rate : Option (List Char) := none
  tags : Option (List Char) := none
  container : Option (List Char) := none
  timestamp : Option (List Char) := none
  cardinality : Option (List Char) := none

/-- Take the next piece if it begins with a mark, and leave the mark out. -/
def takeField (mark : List Char) : List (List Char) → Option (List Char) × List (List Char)
  | [] => (none, [])
  | piece :: rest =>
    match mark.isPrefixOf? piece with
    | some text => (some text, rest)
    | none => (none, piece :: rest)

/-- Read the fields behind the type, in their order. -/
def readFields? (pieces : List (List Char)) : Option Fields :=
  let (rate, pieces) := takeField ['@'] pieces
  let (tags, pieces) := takeField ['#'] pieces
  let (container, pieces) := takeField ['c', ':'] pieces
  let (timestamp, pieces) := takeField ['T'] pieces
  let (cardinality, pieces) := takeField ['c', 'a', 'r', 'd', ':'] pieces
  if pieces.isEmpty then some { rate, tags, container, timestamp, cardinality } else none

/-- Read a number in decimal digits. -/
def readNat? (text : List Char) : Option Nat :=
  if text ≠ [] ∧ text.all Char.isDigit then some (Nat.ofDigitChars 10 text 0) else none

/-- Read a field if it is there. It must not be there and unreadable. -/
def readOptional {α : Type} (read : List Char → Option α) : Option (List Char) → Option (Option α)
  | none => some none
  | some text => (read text).map some

/-- Read a line, without the newline that ends it. There has to be a value on it. -/
def decodeLine? (line : List Char) : Option Record := do
  let cut ← cutLine? line
  guard !cut.values.isEmpty
  let kind ← Kind.ofMark? (String.ofList cut.mark)
  let fields ← readFields? cut.fields
  let timestamp ← readOptional readNat? fields.timestamp
  let cardinality ← readOptional (Cardinality.ofName? ∘ String.ofList) fields.cardinality
  some
    { name := String.ofList cut.name
      values := cut.values.map String.ofList
      kind
      rate := fields.rate.map String.ofList
      tags := readTags fields.tags
      container := fields.container.map String.ofList
      timestamp
      cardinality }

/-- Cut a payload behind each newline. Nothing may stand behind the last one. -/
def linesIn? (payload : List Char) : Option (List (List Char)) :=
  match (payload.splitOn '\n').reverse with
  | [] :: lines => some lines.reverse
  | _ => none

/-- Read all lines of a payload. -/
def decode? (payload : String) : Option (List Record) := do
  let lines ← linesIn? payload.toList
  lines.mapM decodeLine?

end Server

end DogStatsD
