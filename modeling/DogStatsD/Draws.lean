/-!
# Sampling Draws

A caller that asks for a sample rate below one has only that share of its samples sent. Which ones
is decided by draws from a stream of random words, one draw per decision. The stream is any function
on positions, so that what holds of sampling holds for every outcome of the draws; `Draws.seeded`
is the stream that the client runs with.
-/

namespace DogStatsD

/-- A stream of random words, and how many of them are used up. -/
structure Draws where
  /-- The word at each position of the stream. -/
  word : Nat → UInt64
  /-- The number of words used so far. -/
  used : Nat := 0

namespace Draws

/-- The number in `[0, 1)` that a random word stands for: its upper fifty-three bits as a binary
fraction. -/
def unit (w : UInt64) : Float :=
  (w >>> 11).toFloat / 9007199254740992.0

/-- Decide whether a sample with the given rate is kept. A rate of one or more keeps it without a
draw. Any other rate uses one draw and keeps the sample if the number drawn is below the rate, which
no number is for a rate that is zero, negative or NaN. -/
def keeps (d : Draws) (rate : Float) : Bool × Draws :=
  if 1.0 ≤ rate then (true, d)
  else (decide (unit (d.word d.used) < rate), { d with used := d.used + 1 })

/-- Scramble a word so that neighbouring inputs give unrelated outputs. -/
def scramble (w : UInt64) : UInt64 :=
  let w := (w ^^^ (w >>> 30)) * 0xBF58476D1CE4E5B9
  let w := (w ^^^ (w >>> 27)) * 0x94D049BB133111EB
  w ^^^ (w >>> 31)

/-- The stream grown from a seed: scrambled multiples of an odd constant. -/
def seeded (seed : UInt64) : Draws where
  word n := scramble (seed + n.succ.toUInt64 * 0x9E3779B97F4A7C15)

/-- Make `trials` decisions at one rate and count those that keep their sample. -/
def countKept (d : Draws) (rate : Float) : Nat → Nat × Draws
  | 0 => (0, d)
  | trials + 1 =>
    let (kept, d) := d.keeps rate
    let (count, d) := d.countKept rate trials
    (if kept then count + 1 else count, d)

end Draws

end DogStatsD
