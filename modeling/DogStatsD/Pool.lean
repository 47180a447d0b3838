import DogStatsD.Payload

/-!
# Payload Pools

A pool keeps a bounded number of empty payloads for reuse. Borrowing never fails, since a new
payload is made when the pool has none; a payload that is put back is emptied first, and let go if
the pool is full.
-/

namespace DogStatsD

/-- A pool of empty payloads. -/
structure Pool where
  capacity : Nat
  limits : Limits
  /-- The payloads kept, the next one to be borrowed first. -/
  free : List Payload

namespace Pool

/-- A full pool. It keeps at least one payload. -/
def new (capacity : Nat) (limits : Limits) : Pool where
  capacity := max capacity 1
  limits := limits
  free := List.replicate (max capacity 1) { limits }

/-- The number of payloads kept. -/
def available (p : Pool) : Nat :=
  p.free.length

/-- Take a payload out. -/
def borrow (p : Pool) : Payload × Pool :=
  match p.free with
  | [] => ({ limits := p.limits }, p)
  | payload :: rest => (payload, { p with free := rest })

/-- Empty a payload and put it back. -/
def put (p : Pool) (payload : Payload) : Pool :=
  if p.free.length < p.capacity then { p with free := p.free ++ [payload.reset] } else p

end Pool

end DogStatsD
