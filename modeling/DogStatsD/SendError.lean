import DogStatsD.Sample
import DogStatsD.Transport.Basic

/-!
# Errors of Sending

Why a client does not take a sample, or does not close cleanly.
-/

namespace DogStatsD

/-- Why an operation of a client fails. -/
inductive SendError where
  | invalidSample (reason : Rejection)
  | channelFull
  | closed
  /-- The transport did not close cleanly. -/
  | transport (error : TransportError)
  deriving DecidableEq

def SendError.message : SendError → String
  | .invalidSample reason => "invalid sample: " ++ reason.message
  | .channelFull => "worker channel is full, sample dropped"
  | .closed => "client is closed"
  | .transport error => "transport error: " ++ error.message

end DogStatsD
