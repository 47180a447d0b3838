/-!
# Service Checks

A service check reports the status of a service.
-/

namespace DogStatsD

/-- The status of a service. -/
inductive Status where
  /-- The service works. -/
  | ok
  /-- The service needs attention. -/
  | warning
  /-- The service does not work. -/
  | critical
  /-- The status could not be found out. -/
  | unknown
  deriving DecidableEq, Inhabited

def Status.code : Status → String
  | .ok => "0"
  | .warning => "1"
  | .critical => "2"
  | .unknown => "3"

/-- A service check. -/
structure ServiceCheck where
  name : String
  status : Status
  /-- The time of the check in seconds since the epoch. -/
  timestamp : Option Nat := none
  hostname : Option String := none
  message : Option String := none
  tags : List String := []
  deriving DecidableEq, Inhabited

end DogStatsD
