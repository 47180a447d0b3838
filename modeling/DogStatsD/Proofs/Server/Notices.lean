import DogStatsD.Event
import DogStatsD.Proofs.Line.Bytes
import DogStatsD.Proofs.Server.Grammar
import DogStatsD.ServiceCheck

/-!
# The Grammar of Events and Service Checks

A strict reading of the other lines. An event announces how many bytes its title and its text take,
and these are taken as they are, whatever they hold. All else is cut at the bars; fields come in a
fixed order, each at most once, and there is nothing but these. A line ends in its only newline, and
a field that is there and empty is not the same as a field that is not there.
-/

namespace DogStatsD

/-- The priority of a name, spelt exactly so. -/
def Priority.ofName? (name : String) : Option Priority :=
  [normal, low].find? (·.name = name)

/-- The alert type of a name, spelt exactly so. -/
def AlertType.ofName? (name : String) : Option AlertType :=
  [info, error, warning, success].find? (·.name = name)

/-- The status of a code. -/
def Status.ofCode? (code : String) : Option Status :=
  [ok, warning, critical, unknown].find? (·.code = code)

namespace Server

/-! ## Parts of lines -/

/-- Take a text off the front of some bytes. -/
def skip? (text : String) (bytes : List UInt8) : Option (List UInt8) :=
  (bytesOf text).isPrefixOf? bytes

/-- Take a number in decimal digits off the front of some bytes. -/
def readSize? (bytes : List UInt8) : Option (Nat × List UInt8) :=
  (readNat? ((bytes.takeWhile isDigitByte).map Char.ofUInt8)).map
    (·, bytes.dropWhile isDigitByte)

/-- Take a text of so many bytes off the front of some. -/
def takeText? (size : Nat) (bytes : List UInt8) : Option (String × List UInt8) :=
  if size ≤ bytes.length then (textOf? (bytes.take size)).map (·, bytes.drop size) else none

/-- What stands between the bars of a text that is one line. -/
def readPieces? (text : List Char) : Option (List (List Char)) :=
  match linesIn? text with
  | some [line] => some (line.splitOn '|')
  | _ => none

/-- Read fields in the order of their marks, each without its mark if it is there. -/
def readMarked? : List (List Char) → List (List Char) → Option (List (Option (List Char)))
  | [], pieces => if pieces.isEmpty then some [] else none
  | mark :: marks, pieces =>
    let (text, pieces) := takeField mark pieces
    (readMarked? marks pieces).map (text :: ·)

/-! ## Events -/

/-- What an event line says. -/
structure EventRecord where
  title : String
  text : String
  timestamp : Option Nat
  hostname : Option String
  aggregationKey : Option String
  priority : Option Priority
  sourceType : Option String
  alertType : Option AlertType
  /-- No tags if there is no field of tags; an empty field holds one tag, which is empty. -/
  tags : List String
  container : Option String
  deriving DecidableEq

/-- The marks of the fields of an event. -/
def eventMarks : List (List Char) :=
  [['d', ':'], ['h', ':'], ['k', ':'], ['p', ':'], ['s', ':'], ['t', ':'], ['#'], ['c', ':']]

/-- Read an event line. -/
def decodeEvent? (line : String) : Option EventRecord := do
  let bytes ← skip? "_e\x7b" (bytesOf line)
  let (titleSize, bytes) ← readSize? bytes
  let bytes ← skip? "," bytes
  let (textSize, bytes) ← readSize? bytes
  let bytes ← skip? "\x7d:" bytes
  let (title, bytes) ← takeText? titleSize bytes
  let bytes ← skip? "|" bytes
  let (text, bytes) ← takeText? textSize bytes
  let rest ← textOf? bytes
  -- The fields stand behind a bar each, so nothing stands before the first.
  match ← readPieces? rest.toList with
  | [] :: pieces =>
    match ← readMarked? eventMarks pieces with
    | [timestamp, hostname, aggregationKey, priority, sourceType, alertType, tags, container] =>
      let timestamp ← readOptional readNat? timestamp
      let priority ← readOptional (Priority.ofName? ∘ String.ofList) priority
      let alertType ← readOptional (AlertType.ofName? ∘ String.ofList) alertType
      some
        { title
          text
          timestamp
          hostname := hostname.map String.ofList
          aggregationKey := aggregationKey.map String.ofList
          priority
          sourceType := sourceType.map String.ofList
          alertType
          tags := readTags tags
          container := container.map String.ofList }
    | _ => none
  | _ => none

/-! ## Service checks -/

/-- What a service check line says. -/
structure CheckRecord where
  name : String
  status : Status
  timestamp : Option Nat
  hostname : Option String
  /-- No tags if there is no field of tags; an empty field holds one tag, which is empty. -/
  tags : List String
  /-- The message as it is encoded. -/
  message : Option String
  container : Option String
  deriving DecidableEq

/-- The marks of the fields of a service check. -/
def checkMarks : List (List Char) :=
  [['d', ':'], ['h', ':'], ['#'], ['m', ':'], ['c', ':']]

/-- Read a service check line. -/
def decodeCheck? (line : String) : Option CheckRecord := do
  match ← readPieces? line.toList with
  | ['_', 's', 'c'] :: name :: status :: pieces =>
    let status ← Status.ofCode? (String.ofList status)
    match ← readMarked? checkMarks pieces with
    | [timestamp, hostname, tags, message, container] =>
      let timestamp ← readOptional readNat? timestamp
      some
        { name := String.ofList name
          status
          timestamp
          hostname := hostname.map String.ofList
          tags := readTags tags
          message := message.map String.ofList
          container := container.map String.ofList }
    | _ => none
  | _ => none

end Server

end DogStatsD
