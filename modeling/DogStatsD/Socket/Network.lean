import DogStatsD.Socket.RemoteAddress
import DogStatsD.Transport.Basic

/-!
# Networks

What a socket asks of the operating system. The outcome of each request is up to the network, so
that a socket can be studied under every behaviour of the system.
-/

namespace DogStatsD.Socket

/-- The requests of a socket to the operating system. -/
class Network (ν : Type) where
  /-- Connect to an address, and return a number for the connection. -/
  connect : ν → RemoteAddress → Except SystemError Nat × ν
  /-- Send bytes as one datagram over a connection. -/
  sendDatagram : ν → Nat → List UInt8 → Except SystemError Unit × ν
  /-- Write bytes to the stream of a connection. A write that fails may have got part of the bytes
  across. -/
  writeStream : ν → Nat → List UInt8 → Except SystemError Unit × ν

end DogStatsD.Socket
