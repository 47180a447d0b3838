import DogStatsD.Socket.IpAddress.Reader

/-!
# Host Names

A host name is a sequence of labels with dots between them, and may end in one more dot. A resolver
asks name servers only for names that are well formed, so for any other name it is certain that
there is no such host.
-/

namespace DogStatsD.Socket.HostName

/-- Put a character in front of the first label. -/
def extendFirst (c : Char) : List (List Char) → List (List Char)
  | [] => [[c]]
  | label :: rest => (c :: label) :: rest

/-- Cut a name into labels at its dots. A character behind a backslash stands for itself, and three
digits there stand for the character with that code. -/
def labels? : List Char → Option (List (List Char))
  | [] => some [[]]
  | '.' :: rest => (labels? rest).map ([] :: ·)
  | '\\' :: c :: rest =>
    if isDigit 10 c then
      match rest with
      | d :: e :: rest =>
        let code := numberOf 10 [c, d, e]
        if isDigit 10 d ∧ isDigit 10 e ∧ code < UInt8.size then
          (labels? rest).map (extendFirst (Char.ofNat code))
        else none
      | _ => none
    else (labels? rest).map (extendFirst c)
  | ['\\'] => none
  | c :: rest => (labels? rest).map (extendFirst c)

/-- Whether a character may stand in a label. -/
def isLabelChar (c : Char) : Bool :=
  c.isAlphanum || c == '-' || c == '_'

def maxLabel : Nat := 63

/-- The most bytes of a name in a query. -/
def maxName : Nat := 255

/-- The number of bytes of a name in a query: each label goes behind its length, and an empty label
ends the name. -/
def querySize (labels : List (List Char)) : Nat :=
  labels.foldl (fun size label => size + label.length + 1) 1

/-- Whether labels make up a name: none is empty or too long, nor is the name too long, and only
characters of labels occur, of which a hyphen is not the first. -/
def fits (labels : List (List Char)) : Bool :=
  labels.all (fun label => !label.isEmpty && decide (label.length ≤ maxLabel)) &&
    decide (querySize labels ≤ maxName) &&
    labels.flatten.all isLabelChar && labels.flatten.head? != some '-'

/-- Leave out the empty label behind a last dot. -/
def dropRoot (labels : List (List Char)) : List (List Char) :=
  if 1 < labels.length ∧ labels.getLast? = some [] then labels.dropLast else labels

/-- Whether a text is a well-formed host name. A single dot is, as the name of the root. -/
def isWellFormed (text : List Char) : Bool :=
  text == ['.'] || (labels? text).any fun labels => fits (dropRoot labels)

end DogStatsD.Socket.HostName
