/-!
# Frames

A stream has no message boundaries, so each payload goes behind its size: four bytes, the lowest
first. `Frame.readAll` takes a stream apart again.

* `numberOfBytes_lowBytes`: a number that fits reads back from its bytes.
* `Frame.length_lt_of_read?`: taking a frame off a stream makes the stream shorter.
-/

namespace DogStatsD.Socket

def textBytes (text : String) : List UInt8 :=
  text.toByteArray.data.toList

/-- The lowest bytes of a number, as many as given, the lowest first. -/
def lowBytes : Nat → Nat → List UInt8
  | 0, _ => []
  | count + 1, n => n.toUInt8 :: lowBytes count (n / UInt8.size)

/-- The number that bytes stand for, the lowest first. -/
def numberOfBytes : List UInt8 → Nat
  | [] => 0
  | byte :: rest => byte.toNat + UInt8.size * numberOfBytes rest

@[simp]
theorem length_lowBytes (count n : Nat) : (lowBytes count n).length = count := by
  induction count generalizing n with
  | zero => rfl
  | succ count ih => simp [lowBytes, ih]

/-- As many bytes as a number has stand for the number. -/
theorem numberOfBytes_lowBytes {count n : Nat} (h : n < Nat.pow UInt8.size count) :
    numberOfBytes (lowBytes count n) = n := by
  induction count generalizing n with
  | zero => simp at h; simp [lowBytes, numberOfBytes, h]
  | succ count ih =>
    have hrest : n / UInt8.size < Nat.pow UInt8.size count :=
      (Nat.div_lt_iff_lt_mul (by decide)).mpr h
    rw [lowBytes, numberOfBytes, ih hrest]
    simp only [Nat.toUInt8_eq, UInt8.toNat_ofNat', UInt8.size]
    omega

/-- A payload and the size written in front of it. -/
structure Frame where
  /-- The four bytes of the size. -/
  size : List UInt8
  body : List UInt8
  deriving DecidableEq

namespace Frame

/-- The number of bytes that a size takes. -/
def sizeWidth : Nat := 4

/-- The most bytes that a payload may have for its size to be written. -/
def maxBody : Nat := Nat.pow UInt8.size sizeWidth - 1

/-- The size of a payload as it is written in front of it. -/
def sizeBytes (size : Nat) : List UInt8 :=
  lowBytes sizeWidth size

def ofBody (body : List UInt8) : Frame where
  size := sizeBytes body.length
  body := body

def bytes (f : Frame) : List UInt8 :=
  f.size ++ f.body

/-- Take the first frame off a stream, if all of it has arrived. -/
def read? (stream : List UInt8) : Option (Frame × List UInt8) :=
  let size := stream.take sizeWidth
  let rest := stream.drop sizeWidth
  let body := rest.take (numberOfBytes size)
  if size.length = sizeWidth ∧ body.length = numberOfBytes size then
    some (⟨size, body⟩, rest.drop (numberOfBytes size))
  else none

/-- What follows a frame is shorter than the stream that the frame was taken off. -/
theorem length_lt_of_read? {stream rest : List UInt8} {f : Frame}
    (h : read? stream = some (f, rest)) : rest.length < stream.length := by
  unfold read? at h
  simp only [Option.ite_none_right_eq_some, Option.some.injEq, Prod.mk.injEq] at h
  obtain ⟨⟨hsize, -⟩, -, rfl⟩ := h
  simp only [List.length_take, List.length_drop, sizeWidth] at hsize ⊢
  omega

/-- The frames that have arrived on a stream, in order. -/
def readAll (stream : List UInt8) : List Frame :=
  match h : read? stream with
  | none => []
  | some (f, rest) =>
    have := length_lt_of_read? h
    f :: readAll rest
termination_by stream.length

end Frame

end DogStatsD.Socket
