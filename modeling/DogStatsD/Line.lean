import DogStatsD.Entry
import DogStatsD.Line.Metric
import DogStatsD.Line.Notice

/-!
# Lines

The line of a sample depends on the sample and the options only, never on what was written before.
-/

namespace DogStatsD.Line

def ofSample (o : Options) : Sample → String
  | .metric m => ofMetric o m
  | .event e => ofEvent o e
  | .serviceCheck c => ofServiceCheck o c

end DogStatsD.Line
