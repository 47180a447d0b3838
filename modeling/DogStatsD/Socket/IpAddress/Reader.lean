import DogStatsD.Socket.IpAddress.Basic

/-!
# Reading Internet Addresses

Each reader takes what it understands off the front of a text and returns the rest. An address may
be written in its usual form (`Endpoint.parse?`), or loosely where a host name may stand
(`IpAddress.parseHost?`).
-/

namespace DogStatsD.Socket

/-- The value of a digit in bases up to sixteen. -/
def digitValue? (c : Char) : Option Nat :=
  if '0' ≤ c ∧ c ≤ '9' then some (c.toNat - '0'.toNat)
  else if 'a' ≤ c ∧ c ≤ 'f' then some (c.toNat - 'a'.toNat + 10)
  else if 'A' ≤ c ∧ c ≤ 'F' then some (c.toNat - 'A'.toNat + 10)
  else none

def isDigit (base : Nat) (c : Char) : Bool :=
  match digitValue? c with
  | some value => decide (value < base)
  | none => false

def numberOf (base : Nat) (digits : List Char) : Nat :=
  digits.foldl (fun value c => value * base + (digitValue? c).getD 0) 0

/-- How a number may be written. -/
structure NumberRule where
  base : Nat
  maxDigits : Option Nat
  /-- Whether further digits may follow a leading zero. -/
  leadingZeros : Bool
  bound : Nat

/-- Take a number off the front of a text. All digits found belong to it. -/
def NumberRule.read? (r : NumberRule) (text : List Char) : Option (Nat × List Char) :=
  let digits := text.takeWhile (isDigit r.base)
  let value := numberOf r.base digits
  if digits.isEmpty then none
  else if r.maxDigits.any (· < digits.length) then none
  else if !r.leadingZeros ∧ 1 < digits.length ∧ digits.head? = some '0' then none
  else if r.bound ≤ value then none
  else some (value, text.dropWhile (isDigit r.base))

/-- Take the given character off the front of a text. -/
def readChar? (c : Char) : List Char → Option (List Char)
  | [] => none
  | d :: rest => if d = c then some rest else none

/-- Take an octet of a short address off a text. -/
def readOctet? (text : List Char) : Option (UInt8 × List Char) :=
  (NumberRule.read? ⟨10, some 3, false, UInt8.size⟩ text).map fun (n, rest) => (n.toUInt8, rest)

/-- Take a group of a long address off a text. -/
def readGroup? (text : List Char) : Option (UInt16 × List Char) :=
  (NumberRule.read? ⟨16, some 4, true, UInt16.size⟩ text).map fun (n, rest) => (n.toUInt16, rest)

/-- Take the number of a port off a text. -/
def readPort? (text : List Char) : Option (UInt16 × List Char) :=
  (NumberRule.read? ⟨10, none, true, UInt16.size⟩ text).map fun (n, rest) => (n.toUInt16, rest)

/-- Take the number of an interface off a text. -/
def readInterface? (text : List Char) : Option (UInt32 × List Char) :=
  (NumberRule.read? ⟨10, none, true, UInt32.size⟩ text).map fun (n, rest) => (n.toUInt32, rest)

/-- Take the four octets of a short address off a text. -/
def readV4? (text : List Char) : Option (Vector UInt8 4 × List Char) := do
  let (a, text) ← readOctet? text
  let (b, text) ← readOctet? (← readChar? '.' text)
  let (c, text) ← readOctet? (← readChar? '.' text)
  let (d, text) ← readOctet? (← readChar? '.' text)
  return (#v[a, b, c, d], text)

/-- Run a reader behind a colon, or without one for the first item. -/
def behindColon? {α : Type} (first : Bool) (read? : List Char → Option α) (text : List Char) :
    Option α :=
  if first then read? text else (readChar? ':' text).bind read?

def groupOfOctets (high low : UInt8) : UInt16 :=
  high.toUInt16 * 256 + low.toUInt16

/-- Take up to `count` groups off a text, each behind a colon, unless it is the `first` one. The
last two may be written as a short address. Returns the groups, whether they end in a short address,
and the rest. -/
def readGroups (count : Nat) (first : Bool) (text : List Char) :
    List UInt16 × Bool × List Char :=
  match count with
  | 0 => ([], false, text)
  | count + 1 =>
    match if count = 0 then none else behindColon? first readV4? text with
    | some (octets, text) =>
      ([groupOfOctets octets[0] octets[1], groupOfOctets octets[2] octets[3]], true, text)
    | none =>
      match behindColon? first readGroup? text with
      | none => ([], false, text)
      | some (group, rest) =>
        let (groups, short, rest) := readGroups count false rest
        (group :: groups, short, rest)

/-- Eight groups: some at the front, some at the back, and zeros between. -/
def fillGroups (front back : List UInt16) : Vector UInt16 8 :=
  Vector.ofFn fun i =>
    (front ++ List.replicate (8 - front.length - back.length) 0 ++ back).getD i 0

/-- Take the eight groups of a long address off a text. Two colons stand for a run of at least one
group of zero. -/
def readV6? (text : List Char) : Option (Vector UInt16 8 × List Char) :=
  let (front, short, text) := readGroups 8 true text
  if front.length = 8 then some (fillGroups front [], text)
  else if short then none
  else do
    let text ← readChar? ':' (← readChar? ':' text)
    let (back, _, text) := readGroups (8 - (front.length + 1)) true text
    return (fillGroups front back, text)

/-- Take the mark and the number of an interface off a text; zero if there is none. -/
def readScope (text : List Char) : UInt32 × List Char :=
  ((readChar? '%' text).bind readInterface?).getD (0, text)

/-- Read a colon and a port that end a text. -/
def lastPort? (text : List Char) : Option UInt16 :=
  match (readChar? ':' text).bind readPort? with
  | some (port, []) => some port
  | _ => none

/-- Read a short address with its port. -/
def Endpoint.parseV4? (text : List Char) : Option Endpoint := do
  let (octets, text) ← readV4? text
  return ⟨.v4 octets, ← lastPort? text⟩

/-- Read a long address in brackets with its port. -/
def Endpoint.parseV6? (text : List Char) : Option Endpoint := do
  let (groups, text) ← readV6? (← readChar? '[' text)
  let (scope, text) := readScope text
  return ⟨.v6 groups scope, ← lastPort? (← readChar? ']' text)⟩

/-- Read an address with its port. -/
def Endpoint.parse? (text : List Char) : Option Endpoint :=
  (Endpoint.parseV4? text).or (Endpoint.parseV6? text)

/-- The value of one part of a loosely written short address: hexadecimal behind `0x`, octal behind
`0`, else decimal. -/
def loosePart? : List Char → Option Nat
  | '0' :: 'x' :: rest | '0' :: 'X' :: rest =>
    if !rest.isEmpty && rest.all (isDigit 16) then some (numberOf 16 rest) else none
  | '0' :: rest => if rest.all (isDigit 8) then some (numberOf 8 rest) else none
  | text => if !text.isEmpty && text.all (isDigit 10) then some (numberOf 10 text) else none

/-- Put the parts of a loosely written short address together to one number, of which `free` octets
are left: each part but the last is an octet, and the last one fills what is left. -/
def numberOfParts? (free : Nat) : List Nat → Option Nat
  | [] => none
  | [last] => if last < Nat.pow 256 free then some last else none
  | part :: rest =>
    if 1 < free ∧ part < 256 then
      (numberOfParts? (free - 1) rest).map (part * Nat.pow 256 (free - 1) + ·)
    else none

/-- Split a text at each occurrence of a character. -/
def splitAtChar (mark : Char) : List Char → List (List Char)
  | [] => [[]]
  | c :: rest =>
    match splitAtChar mark rest with
    | [] => [[c]]
    | first :: others => if c = mark then [] :: first :: others else (c :: first) :: others

/-- Whether a long address is valid on one link only, so that its interface may be named. -/
def isLinkLocal (groups : Vector UInt16 8) : Bool :=
  groups[0] &&& 0xffc0 == 0xfe80 || groups[0] &&& 0xff0f == 0xff02

/-- Read the interface of a long address to the end of the text: nothing, a number, or for an
address of one link the name of the loopback interface, which is the first one. -/
def parseScope? (groups : Vector UInt16 8) (text : List Char) : Option UInt32 :=
  if isLinkLocal groups ∧ text = ['%', 'l', 'o'] then some 1
  else
    match readScope text with
    | (scope, []) => some scope
    | _ => none

/-- Read an address as it may be given in place of a host name: a short address of one to four
parts, or a long address without brackets. -/
def IpAddress.parseHost? (text : List Char) : Option IpAddress :=
  match ((splitAtChar '.' text).mapM loosePart?).bind (numberOfParts? 4) with
  | some n => some (.v4 (octetsOf n))
  | none =>
    (readV6? text).bind fun (groups, rest) => (parseScope? groups rest).map (.v6 groups)

end DogStatsD.Socket
