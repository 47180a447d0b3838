import DogStatsD.Line.Writer

/-!
# Payloads

A payload collects lines under a limit on its bytes and a limit on its lines. A line is written in
place and cut off again if it turns out too long, so that a write either appends the whole line or
changes nothing; of a batch, as many leading values are written as fit on one line.
-/

namespace DogStatsD

/-- How large a payload may grow. -/
structure Limits where
  maxBytes : Nat
  maxLines : Nat
  deriving DecidableEq, Inhabited

/-- The number of lines that stands for no limit. -/
def Limits.unlimitedLines : Nat := UInt64.size - 1

/-- A payload under construction. -/
structure Payload where
  limits : Limits
  /-- The lines written, one after the other. -/
  text : String := ""
  lines : Nat := 0
  /-- Where the trailer of a batch is made up, whose size must be known before the values. -/
  scratch : String := ""
  deriving DecidableEq, Inhabited

/-- Why an entry was not written in full. -/
inductive WriteError where
  /-- Nothing of it fits, and nothing was written. -/
  | full
  /-- Only so many leading values fit, and those were written. -/
  | partly (written : Nat)
  deriving DecidableEq

def WriteError.message : WriteError → String
  | .full => "buffer is full"
  | .partly written => "only " ++ Decimal.ofNat written ++ " value(s) fit in the buffer"

namespace Payload

/-- The number of bytes written. -/
def size (p : Payload) : Nat :=
  p.text.utf8ByteSize

/-- Whether no line was written. -/
def isEmpty (p : Payload) : Bool :=
  p.lines == 0

/-- Whether the limit on lines leaves room for another one. -/
def hasLineRoom (p : Payload) : Bool :=
  decide (p.lines < p.limits.maxLines)

/-- Forget everything written. -/
def reset (p : Payload) : Payload :=
  { limits := p.limits }

/-- Cut off everything behind the first `size` bytes. -/
def truncate (p : Payload) (size : Nat) : Payload :=
  { p with text := String.Pos.Raw.extract p.text 0 ⟨size⟩ }

/-- Keep what stands behind the first `size` bytes as a line if it is within the limit, and cut it
off otherwise. -/
def commit (p : Payload) (size : Nat) : Except WriteError Nat × Payload :=
  if p.limits.maxBytes < p.size then (.error .full, p.truncate size)
  else (.ok 1, { p with lines := p.lines + 1 })

def writeSample (o : Line.Options) (p : Payload) (s : Sample) : Except WriteError Nat × Payload :=
  if p.hasLineRoom then
    ({ p with text := Line.putSample o s p.text } : Payload).commit p.size
  else (.error .full, p)

/-- Write values with colons between them, after `written` others, until one leaves no room for a
trailer of the given size. Returns the number of values on the line. -/
def putValues (p : Payload) (trailerSize written : Nat) : List Float → Nat × Payload
  | [] => (written, p)
  | value :: rest =>
    let size := p.size
    let text := if written = 0 then p.text else p.text ++ ":"
    let p := { p with text := text ++ Decimal.ofFloat value }
    if p.limits.maxBytes < p.size + trailerSize then (written, p.truncate size)
    else p.putValues trailerSize (written + 1) rest

/-- Write one line with as many leading values of a batch as fit. -/
def writeBatch (o : Line.Options) (p : Payload) (b : Batch) : Except WriteError Nat × Payload :=
  if !p.hasLineRoom || b.values.isEmpty then (.error .full, p)
  else
    -- The trailer goes behind the values, but its size bounds how many there can be.
    let trailer :=
      Line.putTrailer o b.kind b.context.tags b.rate b.context.cardinality none ""
    let size := p.size
    let p := { p with text := Line.putHeader o b.context.name p.text, scratch := trailer }
    if p.limits.maxBytes < p.size + trailer.utf8ByteSize then (.error .full, p.truncate size)
    else
      let (written, p) := p.putValues trailer.utf8ByteSize 0 b.values
      if written = 0 then (.error .full, p.truncate size)
      else
        (if written < b.values.length then .error (.partly written) else .ok written,
          { p with text := p.text ++ p.scratch, lines := p.lines + 1 })

/-- A batch written in part was written with at least one value. -/
theorem pos_of_writeBatch_partly {o : Line.Options} {p : Payload} {b : Batch} {written : Nat}
    (h : (p.writeBatch o b).1 = .error (.partly written)) : 0 < written := by
  unfold writeBatch at h
  -- The payload has no line left, or no byte for the trailer, or fits no value.
  split at h
  · cases h
  · dsimp only at h
    split at h
    · cases h
    · split at h
      · cases h
      next hpos =>
        dsimp only at h
        split at h
        · cases h
          exact Nat.pos_of_ne_zero hpos
        · cases h

/-- Write an entry: a sample as one line, a batch as a line of as many values as fit. -/
def write (o : Line.Options) (p : Payload) : Entry → Except WriteError Nat × Payload
  | .sample s => p.writeSample o s
  | .batch b => p.writeBatch o b

end Payload

end DogStatsD
