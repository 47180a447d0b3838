import DogStatsD.Transport.Basic

/-!
# Scripted Transports

A transport in memory that records every write and fails where its script says so.
-/

namespace DogStatsD

/-- A transport whose failures are laid down in advance. -/
structure Scripted where
  /-- Whether the write with the given index fails, counted from zero over all writes. -/
  failsWrite : Nat → Bool := fun _ => false
  failsClose : Bool := false
  failsTimeout : Bool := false
  /-- Every payload given to it, the oldest first, and whether the write went well. -/
  writes : Array (String × Bool) := #[]
  closings : Nat := 0
  timeout : Option Duration := none

namespace Scripted

/-- The payloads that went through, the oldest first. -/
def accepted (t : Scripted) : List String :=
  t.writes.toList.filterMap fun (payload, ok) => if ok then some payload else none

/-- Record a write, and fail it if the script says so. -/
def write (t : Scripted) (payload : String) : Except TransportError Nat × Scripted :=
  if t.failsWrite t.writes.size then
    (.error (.custom "write failed"), { t with writes := t.writes.push (payload, false) })
  else
    (.ok payload.utf8ByteSize, { t with writes := t.writes.push (payload, true) })

def setWriteTimeout (t : Scripted) (timeout : Duration) : Except TransportError Unit × Scripted :=
  if t.failsTimeout then (.error (.custom "timeouts unsupported"), t)
  else (.ok (), { t with timeout := some timeout })

/-- Count a closing. -/
def close (t : Scripted) : Except TransportError Unit × Scripted :=
  (if t.failsClose then .error (.custom "close failed") else .ok (),
    { t with closings := t.closings + 1 })

instance : Transport Scripted where
  write := write
  setWriteTimeout := setWriteTimeout
  close := close

end Scripted

end DogStatsD
