/-!
# Reading Lines

What a server makes of a payload, knowing the format of metric lines and nothing of the client. A
payload is cut at newlines, a line at bars; the first piece is the name and the values with colons
between them, the second one the type, and each other piece a field that its first characters tell
from the others. A value that arrives under its key is a point.
-/

namespace DogStatsD.Server

/-- What a server tells metrics apart by. -/
structure SeriesKey where
  name : String
  mark : String
  rate : Option String
  tags : List String
  container : Option String
  cardinality : Option String
  deriving DecidableEq

/-- A value and what it is a value of. -/
abbrev Point := SeriesKey × String

/-- The first of some fields that begins with the given characters, without these. -/
def field? (mark : List Char) (fields : List (List Char)) : Option (List Char) :=
  fields.findSome? fun field => mark.isPrefixOf? field

/-- Read the tags: none if there is no field of tags. -/
def readTags : Option (List Char) → List String
  | none => []
  | some text => (text.splitOn ',').map String.ofList

/-- What a line is cut into. -/
structure CutLine where
  name : List Char
  values : List (List Char)
  mark : List Char
  /-- What stands behind the type. -/
  fields : List (List Char)

/-- Cut a line at its bars, and its first piece at the colons. -/
def cutLine? (line : List Char) : Option CutLine :=
  match line.splitOn '|' with
  | head :: mark :: fields =>
    match head.splitOn ':' with
    | name :: values => some { name, values, mark, fields }
    | [] => none
  | _ => none

/-- Read a line: its key and its values. -/
def readLine? (line : List Char) : Option (SeriesKey × List String) :=
  (cutLine? line).map fun cut =>
    ({ name := String.ofList cut.name
       mark := String.ofList cut.mark
       rate := (field? ['@'] cut.fields).map String.ofList
       tags := readTags (field? ['#'] cut.fields)
       container := (field? ['c', ':'] cut.fields).map String.ofList
       cardinality := (field? ['c', 'a', 'r', 'd', ':'] cut.fields).map String.ofList },
      cut.values.map String.ofList)

/-- The points on a line. One that cannot be read holds none. -/
def pointsOnLine (line : List Char) : List Point :=
  match readLine? line with
  | none => []
  | some (key, values) => values.map (key, ·)

/-- The points in a payload, in the order of its lines. -/
def pointsIn (payload : String) : List Point :=
  (payload.toList.splitOn '\n').flatMap pointsOnLine

end DogStatsD.Server
