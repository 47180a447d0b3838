import DogStatsD.Socket.Frame
import DogStatsD.Socket.Network

/-!
# Socket Transports

A socket transport connects on its first write. A write that fails drops the connection, and the
next one connects anew; once closed, the transport refuses to write. Each write sends its payload at
most once, after at most one attempt to connect.
-/

namespace DogStatsD

open Socket

/-- Where a socket transport stands. -/
inductive SocketState where
  /-- In the middle of a write; no finished operation leaves this behind. -/
  | inconsistent
  /-- Not connected; the next write connects. -/
  | disconnected
  | ready (connection : Nat)
  | closed
  deriving DecidableEq

/-- A transport over a socket. -/
structure SocketTransport (ν : Type) where
  address : RemoteAddress
  /-- The most time that a write may take. -/
  writeTimeout : Duration
  state : SocketState := .disconnected
  network : ν

namespace SocketTransport

variable {ν : Type} [Network ν]

/-- Turn a failure of the system into one of the transport. -/
def ofSystem {α : Type} : Except SystemError α → Except TransportError α
  | .ok a => .ok a
  | .error e => .error (.system e)

/-- Connect, and give the new connection the write timeout, which must not be zero. -/
def connect (t : SocketTransport ν) : Except TransportError Nat × SocketTransport ν :=
  match Network.connect t.network t.address with
  | (.error e, network) => (.error (.system e), { t with network })
  | (.ok connection, network) =>
    (if t.writeTimeout.isZero then .error .zeroTimeout else .ok connection, { t with network })

/-- Send a payload over a stream as a frame: its size, then its body. -/
def sendFrame (t : SocketTransport ν) (connection : Nat) (body : List UInt8) :
    Except TransportError Unit × SocketTransport ν :=
  if Frame.maxBody < body.length then (.error .payloadTooLarge, t)
  else
    let frame := Frame.ofBody body
    match Network.writeStream t.network connection frame.size with
    | (.error e, network) => (.error (.system e), { t with network })
    | (.ok (), network) =>
      let (sent, network) := Network.writeStream network connection frame.body
      (ofSystem sent, { t with network })

/-- Send a payload over a connection. -/
def send (t : SocketTransport ν) (connection : Nat) (body : List UInt8) :
    Except TransportError Unit × SocketTransport ν :=
  match t.address with
  | .stream _ => t.sendFrame connection body
  | .udp _ | .datagram _ =>
    let (sent, network) := Network.sendDatagram t.network connection body
    (ofSystem sent, { t with network })

/-- Write a payload over a connection, and keep the connection only if that went well. -/
def writeOn (t : SocketTransport ν) (connection : Nat) (payload : String) :
    Except TransportError Nat × SocketTransport ν :=
  match { t with state := .inconsistent }.send connection (textBytes payload) with
  | (.ok (), t) => (.ok payload.utf8ByteSize, { t with state := .ready connection })
  | (.error e, t) => (.error e, { t with state := .disconnected })

/-- Write a payload, connecting first if there is no connection. -/
def write (t : SocketTransport ν) (payload : String) :
    Except TransportError Nat × SocketTransport ν :=
  match t.state with
  | .inconsistent => (.error .inconsistent, t)
  | .closed => (.error .closed, t)
  | .ready connection => t.writeOn connection payload
  | .disconnected =>
    match { t with state := .inconsistent }.connect with
    | (.ok connection, t) => { t with state := .ready connection }.writeOn connection payload
    | (.error e, t) => (.error e, { t with state := .disconnected })

/-- Change the write timeout. It is remembered in any case, and refused by a connection if it is
zero. -/
def setWriteTimeout (t : SocketTransport ν) (timeout : Duration) :
    Except TransportError Unit × SocketTransport ν :=
  let changed := { t with writeTimeout := timeout }
  match t.state with
  | .ready _ => (if timeout.isZero then .error .zeroTimeout else .ok (), changed)
  | _ => (.ok (), changed)

def close (t : SocketTransport ν) : Except TransportError Unit × SocketTransport ν :=
  (.ok (), { t with state := .closed })

instance : Transport (SocketTransport ν) where
  write := write
  setWriteTimeout := setWriteTimeout
  close := close

end SocketTransport

end DogStatsD
