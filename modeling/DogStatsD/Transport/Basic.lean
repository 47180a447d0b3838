import DogStatsD.Duration

/-!
# Transports

A transport takes finished payloads to the server. Each operation returns its outcome together with
the transport afterwards, so a failing operation may change the transport too.
-/

namespace DogStatsD

/-- A failure that the operating system reports. -/
inductive SystemError where
  | notFound
  | brokenPipe
  | messageTooLong
  | networkUnreachable
  /-- Nobody receives datagrams any more. -/
  | connectionRefused
  deriving DecidableEq

/-- The text of a system error, with its number. -/
def SystemError.message : SystemError → String
  | .notFound => "No such file or directory (os error 2)"
  | .brokenPipe => "Broken pipe (os error 32)"
  | .messageTooLong => "Message too long (os error 90)"
  | .networkUnreachable => "Network is unreachable (os error 101)"
  | .connectionRefused => "Connection refused (os error 111)"

/-- Why an operation on a transport fails. -/
inductive TransportError where
  | closed
  /-- A write was broken off and left the transport unusable. -/
  | inconsistent
  /-- A write timeout of no time was asked for. -/
  | zeroTimeout
  /-- A payload has a size that no length prefix can hold. -/
  | payloadTooLarge
  | system (error : SystemError)
  /-- A transport of some other make failed for a reason of its own. -/
  | custom (reason : String)
  deriving DecidableEq

def TransportError.message : TransportError → String
  | .closed => "transport is closed"
  | .inconsistent => "transport left in an inconsistent state"
  | .zeroTimeout => "cannot set a 0 duration timeout"
  | .payloadTooLarge => "payload too large for length prefix"
  | .system error => error.message
  | .custom reason => reason

/-- The operations of a transport. -/
class Transport (τ : Type) where
  /-- Write one payload, and return the number of its bytes written. -/
  write : τ → String → Except TransportError Nat × τ
  /-- Bound the time that later writes may take. -/
  setWriteTimeout : τ → Duration → Except TransportError Unit × τ
  /-- Release what the transport holds. -/
  close : τ → Except TransportError Unit × τ

end DogStatsD
