import DogStatsD.Socket.Basic

/-!
# Local Peers

A network of one peer on the same machine, held in memory. The peer listens at one address; when it
stops, its connections break and its path goes away, and when it listens again it is another socket
at the same place, which earlier connections do not reach.
-/

namespace DogStatsD.Socket

/-- What a connection leads to. -/
inductive Target where
  /-- A port, which any socket may answer. -/
  | port
  /-- The socket that the peer listened with when the connection was made. -/
  | socket (generation : Nat)
  deriving DecidableEq

/-- Bytes that reached the peer. -/
inductive Arrival where
  | datagram (bytes : List UInt8)
  | stream (connection : Nat) (bytes : List UInt8)
  deriving DecidableEq

/-- The peer, and the connections made to it. -/
structure LocalPeer where
  /-- Whether the machine has a route for internet datagrams. -/
  routed : Bool := false
  /-- The socket that the peer listens with, if it listens. -/
  listening : Option Nat := some 0
  /-- The number of sockets that the peer has listened with. -/
  generations : Nat := 1
  /-- What each connection leads to, in the order they were made. -/
  connections : List Target := []
  /-- The connections that the peer keeps open. -/
  live : List Nat := []
  /-- What has arrived, the newest first. -/
  arrivals : List Arrival := []

namespace LocalPeer

/-- A peer that does not listen yet. -/
def silent : LocalPeer :=
  { listening := none, generations := 0 }

/-- Stop listening: every connection is closed. -/
def stop (p : LocalPeer) : LocalPeer :=
  { p with listening := none, live := [] }

/-- Listen with a new socket. -/
def listen (p : LocalPeer) : LocalPeer :=
  { p with listening := some p.generations, generations := p.generations + 1, live := [] }

/-- Close the connections but go on listening. -/
def dropConnections (p : LocalPeer) : LocalPeer :=
  { p with live := [] }

/-- The largest datagram that can be sent over the internet. -/
def maxDatagram : Nat := 65507

/-- Record a connection. -/
def join (p : LocalPeer) (target : Target) : Except SystemError Nat × LocalPeer :=
  let connection := p.connections.length
  (.ok connection,
    { p with connections := p.connections ++ [target], live := connection :: p.live })

/-- Connect to an address. A local socket must be there; a port needs a route only. -/
def connect (p : LocalPeer) : RemoteAddress → Except SystemError Nat × LocalPeer
  | .udp _ => if p.routed then p.join .port else (.error .networkUnreachable, p)
  | .datagram _ | .stream _ =>
    match p.listening with
    | some generation => p.join (.socket generation)
    | none => (.error .notFound, p)

/-- Send a datagram. It arrives if the socket it leads to still listens. -/
def sendDatagram (p : LocalPeer) (connection : Nat) (bytes : List UInt8) :
    Except SystemError Unit × LocalPeer :=
  let arrived := { p with arrivals := .datagram bytes :: p.arrivals }
  match p.connections[connection]? with
  | some .port =>
    if maxDatagram < bytes.length then (.error .messageTooLong, p)
    else if p.listening.isSome then (.ok (), arrived)
    else (.error .connectionRefused, p)
  | some (.socket generation) =>
    if p.listening = some generation then (.ok (), arrived) else (.error .connectionRefused, p)
  | none => (.error .connectionRefused, p)

/-- Write to the stream of a connection that the peer keeps open. -/
def writeStream (p : LocalPeer) (connection : Nat) (bytes : List UInt8) :
    Except SystemError Unit × LocalPeer :=
  if connection ∈ p.live then
    (.ok (), { p with arrivals := .stream connection bytes :: p.arrivals })
  else (.error .brokenPipe, p)

instance : Network LocalPeer where
  connect := connect
  sendDatagram := sendDatagram
  writeStream := writeStream

def streamBytes (p : LocalPeer) (connection : Nat) : List UInt8 :=
  p.arrivals.reverse.flatMap fun
    | .stream c bytes => if c = connection then bytes else []
    | .datagram _ => []

def datagrams (p : LocalPeer) : List (List UInt8) :=
  p.arrivals.reverse.filterMap fun
    | .datagram bytes => some bytes
    | .stream _ _ => none

/-- The frames that arrived, connection by connection. -/
def frames (p : LocalPeer) : List Frame :=
  (List.range p.connections.length).flatMap fun connection =>
    Frame.readAll (p.streamBytes connection)

/-- The payloads that arrived: datagrams, and the bodies of frames. -/
def payloads (p : LocalPeer) : List (List UInt8) :=
  p.datagrams ++ p.frames.map Frame.body

end LocalPeer

end DogStatsD.Socket
