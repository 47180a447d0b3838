import DogStatsD.Sample
import DogStatsD.Context

/-!
# Entries

What payloads are filled with: samples as the application sent them or as merging made them, and
batches of observations.
-/

namespace DogStatsD

/-- Something to write into a payload. -/
inductive Entry where
  | sample (sample : Sample)
  | batch (batch : Batch)

namespace Entry

def metric (m : Metric) : Entry :=
  .sample (.metric m)

/-- The name that decides which shard an entry goes to. -/
def routingName : Entry → String
  | .sample s => s.routingName
  | .batch b => b.context.name

end Entry

end DogStatsD
