import DogStatsD.Context

/-!
# Tables of Contexts

A table holds one entry per context, in the order in which the contexts were first met.
-/

namespace DogStatsD

/-- Entries by context. -/
structure Table (α : Type) where
  /-- The contexts met and their entries, the oldest first. -/
  entries : List (Context × α) := []

namespace Table

variable {α : Type}

/-- Update the entry of a context in a list, adding a fresh one if there is none. -/
def mergeInto (context : Context) (fresh : α) (update : α → α) :
    List (Context × α) → List (Context × α)
  | [] => [(context, update fresh)]
  | (c, entry) :: rest =>
    if c = context then (c, update entry) :: rest
    else (c, entry) :: mergeInto context fresh update rest

/-- Update the entry of a context, adding a fresh one if there is none. -/
def merge (t : Table α) (context : Context) (fresh : α) (update : α → α) : Table α :=
  ⟨mergeInto context fresh update t.entries⟩

def get? (t : Table α) (context : Context) : Option α :=
  (t.entries.find? fun (c, _) => c = context).map Prod.snd

/-- The number of contexts. -/
def size (t : Table α) : Nat :=
  t.entries.length

end Table

end DogStatsD
