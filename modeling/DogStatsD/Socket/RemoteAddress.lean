import DogStatsD.Socket.HostName

/-!
# Remote Addresses

Where a client sends its payloads: `host:port` for datagrams over the internet, `unix://path` for a
stream and `unixgram://path` for datagrams over a local socket. Hosts are given by their addresses:
there is no name server to ask.
-/

namespace DogStatsD

open Socket

/-- The address of a server. -/
inductive RemoteAddress where
  /-- Datagrams to the first reachable of some endpoints. -/
  | udp (endpoints : List Endpoint)
  | datagram (path : String)
  | stream (path : String)
  deriving DecidableEq

/-- Why a text is no remote address. -/
inductive AddressError where
  | unknownScheme (scheme : String)
  | missingPort
  /-- What stands behind the last colon is no port. -/
  | invalidPort
  /-- The host has a null character, which ends the names that a resolver takes. -/
  | nullInHost
  /-- The host is a name, which no name server could be asked for. -/
  | unresolved
  /-- The host is neither an address nor a name. -/
  | unknownHost
  deriving DecidableEq

def AddressError.message : AddressError → String
  | .unknownScheme scheme =>
    "invalid scheme '" ++ scheme ++ "' (expected 'unix' or 'unixgram')"
  | .missingPort => "invalid socket address"
  | .invalidPort => "invalid port value"
  | .nullInHost => "file name contained an unexpected NUL byte"
  | .unresolved => "failed to lookup address information: Temporary failure in name resolution"
  | .unknownHost => "failed to lookup address information: Name or service not known"

namespace RemoteAddress

/-- The short name of the kind of transport that an address needs. -/
def transportId : RemoteAddress → String
  | .udp _ => "udp"
  | .stream _ => "uds-stream"
  | .datagram _ => "uds"

/-- Split a text at the first `://`. -/
def splitScheme? : List Char → Option (List Char × List Char)
  | [] => none
  | ':' :: '/' :: '/' :: rest => some ([], rest)
  | c :: rest => (splitScheme? rest).map fun (scheme, path) => (c :: scheme, path)

/-- Split a text at its last colon. -/
def splitPort? : List Char → Option (List Char × List Char)
  | [] => none
  | c :: rest =>
    match splitPort? rest with
    | some (host, port) => some (c :: host, port)
    | none => if c = ':' then some ([], rest) else none

/-- Read a port that may have a plus sign. -/
def parsePort? (text : List Char) : Option UInt16 :=
  match readPort? ((readChar? '+' text).getD text) with
  | some (port, []) => some port
  | _ => none

/-- Read the address of a host in one of the looser forms. Names are not looked up. -/
def parseHost (host : List Char) : Except AddressError IpAddress :=
  if '\x00' ∈ host then .error .nullInHost
  else
    match IpAddress.parseHost? host with
    | some address => .ok address
    | none => .error (if HostName.isWellFormed host then .unresolved else .unknownHost)

/-- Read a host and a port. An address in its usual form is taken as it is; otherwise the last colon
sets off the port, and the host must be an address in one of the looser forms. The port is looked at
before the host. -/
def parseEndpoint (text : List Char) : Except AddressError Endpoint :=
  match Endpoint.parse? text with
  | some endpoint => .ok endpoint
  | none =>
    match splitPort? text with
    | none => .error .missingPort
    | some (host, port) =>
      match parsePort? port with
      | none => .error .invalidPort
      | some port => (parseHost host).map fun address => ⟨address, port⟩

def parse (text : String) : Except AddressError RemoteAddress :=
  match splitScheme? text.toList with
  | some (scheme, path) =>
    let scheme := String.ofList scheme
    let path := String.ofList path
    if scheme = "unix" then .ok (.stream path)
    else if scheme = "unixgram" then .ok (.datagram path)
    else .error (.unknownScheme scheme)
  | none => (parseEndpoint text.toList).map fun endpoint => .udp [endpoint]

/-- Port 8125 of the machine itself. -/
def loopback : RemoteAddress :=
  .udp [⟨.v4 #v[127, 0, 0, 1], 8125⟩]

end RemoteAddress

end DogStatsD
