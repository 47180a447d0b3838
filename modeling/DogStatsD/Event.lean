/-!
# Events

An event is posted to the event stream of the server.
-/

namespace DogStatsD

/-- The priority of an event. -/
inductive Priority where
  | normal
  | low
  deriving DecidableEq

def Priority.name : Priority → String
  | .normal => "normal"
  | .low => "low"

/-- What an event alerts to. -/
inductive AlertType where
  | info
  | error
  | warning
  | success
  deriving DecidableEq

def AlertType.name : AlertType → String
  | .info => "info"
  | .error => "error"
  | .warning => "warning"
  | .success => "success"

/-- An event. -/
structure Event where
  title : String
  text : String
  /-- The time of the event in seconds since the epoch. -/
  timestamp : Option Nat := none
  hostname : Option String := none
  /-- Events with the same key are grouped. -/
  aggregationKey : Option String := none
  priority : Option Priority := none
  sourceType : Option String := none
  alertType : Option AlertType := none
  tags : List String := []
  deriving DecidableEq, Inhabited

end DogStatsD
