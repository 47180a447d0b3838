/-!
# Tag Cardinality

How many tag combinations a sender expects for a metric, which tells the server what origin tags
to enrich it with.
-/

namespace DogStatsD

/-- A tag cardinality hint. -/
inductive Cardinality where
  | none
  /-- Origin tags of low cardinality. -/
  | low
  /-- Origin tags up to those of the orchestrator. -/
  | orchestrator
  | high
  deriving DecidableEq, Inhabited

namespace Cardinality

def name : Cardinality → String
  | .none => "none"
  | .low => "low"
  | .orchestrator => "orchestrator"
  | .high => "high"

/-- No cardinality has the given name. -/
structure UnknownName where
  /-- The name looked for, in lower case. -/
  name : String
  deriving DecidableEq

/-- The text of the error for an unknown name. -/
def UnknownName.message (e : UnknownName) : String :=
  "invalid cardinality '" ++ e.name ++ "' (expected 'none', 'low', 'orchestrator' or 'high')"

/-- Replace the ASCII capitals of a text by small letters; other characters stay. -/
def lowerCase (text : String) : String :=
  String.ofList (text.toList.map Char.toLower)

/-- Find a cardinality by its name in any mixture of ASCII cases. -/
def parse (text : String) : Except UnknownName Cardinality :=
  let name := lowerCase text
  if name = "none" then .ok .none
  else if name = "low" then .ok .low
  else if name = "orchestrator" then .ok .orchestrator
  else if name = "high" then .ok .high
  else .error ⟨name⟩

end Cardinality

end DogStatsD
