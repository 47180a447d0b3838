import DogStatsD.Socket.RemoteAddress
import DogStatsD.Transport.Basic

/-!
# Errors of Building

Why a client cannot be built from its settings, or a recorder not be installed.
-/

namespace DogStatsD

/-- Why a configuration is invalid. -/
inductive ConfigFault where
  /-- Payloads cannot hold the shortest metric line. -/
  | payloadTooShort
  | noElements
  | emptyPool
  | noWorkers
  /-- The queue of the outbox holds nothing. -/
  | emptyQueue
  /-- Channels hold nothing. -/
  | emptyChannels
  /-- Something would be flushed all the time. -/
  | zeroInterval
  /-- Observations are to be aggregated, but nothing else is. -/
  | extendedWithoutAggregation
  /-- Reservoirs keep nothing. -/
  | emptyReservoirs
  /-- The transport refuses the write timeout. -/
  | timeoutRefused (error : TransportError)
  deriving DecidableEq

/-- The text of a configuration fault. -/
def ConfigFault.message : ConfigFault → String
  | .payloadTooShort => "maximum payload length is too small to hold a single metric"
  | .noElements => "maximum payload elements must be at least 1"
  | .emptyPool => "buffer pool size must be at least 1"
  | .noWorkers => "number of workers must be at least 1"
  | .emptyQueue => "sender queue size must be at least 1"
  | .emptyChannels => "channel mode buffer size must be at least 1"
  | .zeroInterval => "flush intervals must be greater than zero"
  | .extendedWithoutAggregation => "extended aggregation requires aggregation to be enabled"
  | .emptyReservoirs => "maximum samples per context must be at least 1"
  | .timeoutRefused error => error.message

/-- Why a client cannot be built or installed. -/
inductive BuildError where
  /-- The remote address is malformed. -/
  | invalidRemoteAddress (reason : AddressError)
  | invalidConfiguration (reason : ConfigFault)
  | alreadyInstalled
  deriving DecidableEq

def BuildError.message : BuildError → String
  | .invalidRemoteAddress reason => "invalid remote address: " ++ reason.message
  | .invalidConfiguration reason => "invalid configuration: " ++ reason.message
  | .alreadyInstalled => "failed to install recorder as global recorder"

end DogStatsD
