import DogStatsD.Decimal.Layout

/-!
# Internet Addresses

Addresses with a port, and their texts: `127.0.0.1:8125`, `[::1]:8125`.
-/

namespace DogStatsD.Socket

/-- An internet address. -/
inductive IpAddress where
  | v4 (octets : Vector UInt8 4)
  /-- A long address of eight groups of two octets, and the number of the interface that it belongs
  to, zero for none. -/
  | v6 (groups : Vector UInt16 8) (scope : UInt32)
  deriving DecidableEq

/-- An address and a port. -/
structure Endpoint where
  address : IpAddress
  port : UInt16
  deriving DecidableEq

/-- The four octets of a number. -/
def octetsOf (n : Nat) : Vector UInt8 4 :=
  #v[(n / Nat.pow 256 3).toUInt8, (n / Nat.pow 256 2).toUInt8, (n / 256).toUInt8, n.toUInt8]

/-- The text of a short address. -/
def octetsText (octets : Vector UInt8 4) : String :=
  ".".intercalate (octets.toList.map fun octet => Decimal.ofNat octet.toNat)

/-- The text of groups: hexadecimal without leading zeros, divided by colons. -/
def groupsText (groups : List UInt16) : String :=
  ":".intercalate (groups.map fun group => String.ofList (Nat.toDigits 16 group.toNat))

/-- The length of the run of zeros that each position starts. -/
def zeroRuns : List UInt16 → List Nat
  | [] => []
  | group :: rest =>
    let runs := zeroRuns rest
    (if group = 0 then runs.headD 0 + 1 else 0) :: runs

/-- The text of groups of which the first of the longest runs of two or more zeros is left out
between two colons. -/
def shortenedText (groups : List UInt16) : String :=
  let runs := zeroRuns groups
  let longest := runs.foldl max 0
  let start := runs.idxOf longest
  if 1 < longest then
    groupsText (groups.take start) ++ "::" ++ groupsText (groups.drop (start + longest))
  else groupsText groups

/-- The text of a long address. One that holds a short address shows it. -/
def longText (groups : Vector UInt16 8) : String :=
  if groups.toList.take 6 = [0, 0, 0, 0, 0, 0xffff] then
    "::ffff:" ++ octetsText (octetsOf (groups[6].toNat * UInt16.size + groups[7].toNat))
  else shortenedText groups.toList

/-- The text of an address with its port. -/
def Endpoint.text (e : Endpoint) : String :=
  let port := ":" ++ Decimal.ofNat e.port.toNat
  match e.address with
  | .v4 octets => octetsText octets ++ port
  | .v6 groups scope =>
    "[" ++ longText groups ++ (if scope = 0 then "" else "%" ++ Decimal.ofNat scope.toNat) ++ "]"
      ++ port

end DogStatsD.Socket
