/-!
# Text on the Wire

Lines end in a newline, so text that goes on a line must hold none: newlines are left out of short
fields and written as a backslash and an `n` in titles, texts and messages. A message also has every
`m:` broken up, since that opens the message field.
-/

namespace DogStatsD.Line

/-- Leave the newlines out. -/
def dropNewlines (text : String) : String :=
  String.ofList (text.toList.filter (· != '\n'))

/-- Write each newline as a backslash and an `n`. -/
def escapeChars : List Char → List Char
  | [] => []
  | c :: rest => if c = '\n' then '\\' :: 'n' :: escapeChars rest else c :: escapeChars rest

/-- Write each newline of a text as a backslash and an `n`. -/
def escapeNewlines (text : String) : String :=
  String.ofList (escapeChars text.toList)

/-- The number of bytes of a text once its newlines are escaped: one more for each newline. -/
def escapedSize (text : String) : Nat :=
  text.utf8ByteSize + text.toList.count '\n'

/-- Put a backslash into each `m:`, from left to right. -/
def breakMarkChars : List Char → List Char
  | 'm' :: ':' :: rest => 'm' :: '\\' :: ':' :: breakMarkChars rest
  | c :: rest => c :: breakMarkChars rest
  | [] => []

/-- The text of a message: its field marks are broken up, then its newlines escaped. -/
def messageText (text : String) : String :=
  escapeNewlines (String.ofList (breakMarkChars text.toList))

/-- An optional field behind its mark; nothing if the field is not set. -/
def field (mark : String) : Option String → String
  | none => ""
  | some text => mark ++ text

end DogStatsD.Line
