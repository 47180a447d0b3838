/-!
# Durations

A span of time in whole seconds and nanoseconds, and its length in milliseconds as timings report
it.
-/

namespace DogStatsD

/-- A span of time. -/
structure Duration where
  seconds : Nat
  /-- Nanoseconds beyond the whole seconds. -/
  nanoseconds : Nat
  /-- They make less than a second. -/
  nanoseconds_lt : nanoseconds < 1000000000 := by decide
  deriving DecidableEq

namespace Duration

instance : Inhabited Duration where
  default := { seconds := 0, nanoseconds := 0 }

/-- The span of the given seconds and nanoseconds, carrying full seconds over. -/
def ofParts (seconds nanoseconds : Nat) : Duration where
  seconds := seconds + nanoseconds / 1000000000
  nanoseconds := nanoseconds % 1000000000
  nanoseconds_lt := Nat.mod_lt _ (by decide)

/-- The span of the given number of nanoseconds. -/
def ofNanoseconds (n : Nat) : Duration :=
  ofParts 0 n

/-- The whole span in nanoseconds. -/
def toNanoseconds (d : Duration) : Nat :=
  d.seconds * 1000000000 + d.nanoseconds

/-- Whether no time passes. -/
def isZero (d : Duration) : Bool :=
  d.seconds == 0 && d.nanoseconds == 0

/-- The span in milliseconds. Seconds and their fraction are added first and scaled last, each step
rounding to the nearest double. -/
def milliseconds (d : Duration) : Float :=
  (d.seconds.toUInt64.toFloat + d.nanoseconds.toUInt64.toFloat / 1000000000.0) * 1000.0

end Duration

end DogStatsD
