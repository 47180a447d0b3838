import DogStatsD.Socket.Basic
import Mathlib.Data.List.Basic
import Mathlib.Logic.Function.Iterate

/-!
# Socket Incidents

What a socket transport asks of the operating system is kept in a log, and the operating system may
refuse any of it: its answers depend in any way on what has happened so far.

* `Unreliable`: a network that keeps a log of incidents and fails at will, a stream after part of
  the bytes;
* `SocketTransport.Attempt.pass`, `SocketTransport.iterate_pass`: the loop that a write goes
  through, which is over after two passes;
* `SocketTransport.Sent`, `SocketTransport.exists_sent`: what sending a payload can come to;
* `SocketTransport.Written`, `SocketTransport.write_cases`: what a write can come to.
-/

namespace DogStatsD

namespace Socket

/-- A request to the operating system, and what came of it. -/
inductive Incident where
  /-- An attempt to connect, and the number of the connection if there is one. -/
  | connect (made : Option Nat)
  /-- Bytes written to the stream of a connection, of which so many got across. -/
  | stream (connection : Nat) (bytes : List UInt8) (across : Nat)
  /-- Bytes sent as a datagram over a connection. -/
  | datagram (connection : Nat) (bytes : List UInt8) (sent : Bool)
  deriving DecidableEq

namespace Incident

def isConnect : Incident → Bool
  | .connect _ => true
  | .stream .. | .datagram .. => false

/-- The connection that an attempt to connect has made. -/
def made? : Incident → Option Nat
  | .connect made => made
  | .stream .. | .datagram .. => none

/-- The bytes that are to be sent. -/
def offered? : Incident → Option (List UInt8)
  | .connect _ => none
  | .stream _ bytes _ | .datagram _ bytes _ => some bytes

/-- Whether something is to be sent over a connection. -/
def isOn (connection : Nat) : Incident → Bool
  | .connect _ => false
  | .stream own _ _ | .datagram own _ _ => own == connection

/-- The bytes that get across on the stream of a connection. -/
def bytesOn (connection : Nat) : Incident → List UInt8
  | .stream own bytes across => if own = connection then bytes.take across else []
  | .connect _ | .datagram .. => []

end Incident

/-- The bytes that have got across on the stream of a connection. -/
def streamBytes (connection : Nat) (incidents : List Incident) : List UInt8 :=
  incidents.flatMap (Incident.bytesOn connection)

@[simp]
theorem streamBytes_append (connection : Nat) (front back : List Incident) :
    streamBytes connection (front ++ back) =
      streamBytes connection front ++ streamBytes connection back :=
  List.flatMap_append

/-- Nothing gets across on a connection over which nothing is sent. -/
theorem streamBytes_eq_nil {connection : Nat} {incidents : List Incident}
    (h : ∀ incident ∈ incidents, incident.isOn connection = false) :
    streamBytes connection incidents = [] := by
  refine List.flatMap_eq_nil_iff.mpr ?_
  intro incident hmem
  have hoff := h incident hmem
  cases incident with
  | connect made => rfl
  | datagram own bytes sent => rfl
  | stream own bytes across => exact if_neg (by simpa [Incident.isOn] using hoff)

/-- A network that may fail at every request. Its answers depend on what has happened so far. -/
structure Unreliable where
  /-- Why an attempt to connect fails, if it does. -/
  refuses : List Incident → Option SystemError
  /-- After how many bytes a write to a stream fails, and why. It goes well if there are no more. -/
  breaks : List Incident → Option (Nat × SystemError)
  /-- Why a datagram is not sent, if it is not. -/
  drops : List Incident → Option SystemError
  /-- What has happened, the oldest first. -/
  incidents : List Incident := []

namespace Unreliable

def noteAll (n : Unreliable) (incidents : List Incident) : Unreliable :=
  { n with incidents := n.incidents ++ incidents }

/-- The number of connections made. -/
def made (n : Unreliable) : Nat :=
  n.incidents.countP fun incident => incident.made?.isSome

/-- Make a connection with a number of its own, or fail. -/
def connect (n : Unreliable) (_ : RemoteAddress) : Except SystemError Nat × Unreliable :=
  match n.refuses n.incidents with
  | some e => (.error e, n.noteAll [.connect none])
  | none => (.ok n.made, n.noteAll [.connect (some n.made)])

/-- Get all bytes across on a stream, or fail before the last one. -/
def writeStream (n : Unreliable) (connection : Nat) (bytes : List UInt8) :
    Except SystemError Unit × Unreliable :=
  match n.breaks n.incidents with
  | some (across, e) =>
    if across < bytes.length then (.error e, n.noteAll [.stream connection bytes across])
    else (.ok (), n.noteAll [.stream connection bytes bytes.length])
  | none => (.ok (), n.noteAll [.stream connection bytes bytes.length])

def sendDatagram (n : Unreliable) (connection : Nat) (bytes : List UInt8) :
    Except SystemError Unit × Unreliable :=
  match n.drops n.incidents with
  | some e => (.error e, n.noteAll [.datagram connection bytes false])
  | none => (.ok (), n.noteAll [.datagram connection bytes true])

instance : Network Unreliable where
  connect := connect
  sendDatagram := sendDatagram
  writeStream := writeStream

@[simp]
theorem noteAll_noteAll (n : Unreliable) (first second : List Incident) :
    (n.noteAll first).noteAll second = n.noteAll (first ++ second) := by
  simp [noteAll]

/-- A write to a stream gets all bytes across, or fails before the last one. -/
theorem writeStream_cases (n : Unreliable) (connection : Nat) (bytes : List UInt8) :
    Network.writeStream n connection bytes =
        (.ok (), n.noteAll [.stream connection bytes bytes.length]) ∨
      ∃ across e, across < bytes.length ∧ Network.writeStream n connection bytes =
        (.error e, n.noteAll [.stream connection bytes across]) := by
  show n.writeStream connection bytes = _ ∨ ∃ across e, _ ∧ n.writeStream connection bytes = _
  unfold writeStream
  split
  next across e _ =>
    split
    next hlt => exact .inr ⟨across, e, hlt, rfl⟩
    next => exact .inl rfl
  next => exact .inl rfl

end Unreliable

end Socket

open Socket

namespace SocketTransport

/-! ## The loop of a write -/

section Attempt

variable {ν : Type}

/-- How far a write has come. -/
inductive Attempt (ν : Type) where
  | going (t : SocketTransport ν)
  | done (outcome : Except TransportError Nat) (t : SocketTransport ν)

variable [Network ν]

/-- Pass once through the loop of a write. The state is taken out for as long as the pass takes. -/
def Attempt.pass (payload : String) : Attempt ν → Attempt ν
  | .done outcome t => .done outcome t
  | .going t =>
    let taken := { t with state := .inconsistent }
    match t.state with
    | .inconsistent => .done (.error .inconsistent) taken
    | .closed => .done (.error .closed) { taken with state := .closed }
    | .disconnected =>
      match taken.connect with
      | (.ok connection, t) => .going { t with state := .ready connection }
      | (.error e, t) => .done (.error e) { t with state := .disconnected }
    | .ready connection =>
      match taken.send connection (textBytes payload) with
      | (.ok (), t) => .done (.ok payload.utf8ByteSize) { t with state := .ready connection }
      | (.error e, t) => .done (.error e) { t with state := .disconnected }

/-- With a connection, one pass sends the payload. -/
theorem pass_of_ready {t : SocketTransport ν} {connection : Nat} (h : t.state = .ready connection)
    (payload : String) :
    Attempt.pass payload (.going t) =
      .done (t.writeOn connection payload).1 (t.writeOn connection payload).2 := by
  rcases hsend : ({ t with state := .inconsistent } : SocketTransport ν).send connection
    (textBytes payload) with ⟨outcome, later⟩
  cases outcome with
  | ok _ => simp [Attempt.pass, writeOn, h, hsend]
  | error e => simp [Attempt.pass, writeOn, h, hsend]

/-- A write is over after two passes: one to connect, and one to send. -/
theorem iterate_pass (t : SocketTransport ν) (payload : String) :
    (Attempt.pass payload)^[2] (.going t) = .done (t.write payload).1 (t.write payload).2 := by
  show Attempt.pass payload (Attempt.pass payload (.going t)) = _
  cases hstate : t.state with
  | inconsistent =>
    have hsame : { t with state := .inconsistent } = t := by rw [← hstate]
    simp [Attempt.pass, write, hstate, hsame]
  | closed =>
    have hsame : { t with state := .closed } = t := by rw [← hstate]
    simp [Attempt.pass, write, hstate, hsame]
  | ready connection =>
    rw [pass_of_ready hstate, write, hstate]
    rfl
  | disconnected =>
    rcases hconnect : ({ t with state := .inconsistent } : SocketTransport ν).connect with
      ⟨outcome, later⟩
    cases outcome with
    | error e => simp [Attempt.pass, write, hstate, hconnect]
    | ok connection =>
      have hfirst : Attempt.pass payload (.going t) =
          .going { later with state := .ready connection } := by
        simp [Attempt.pass, hstate, hconnect]
      rw [hfirst, pass_of_ready rfl, write, hstate]
      dsimp only
      rw [hconnect]

end Attempt

/-! ## What a write can come to -/

/-- Whether payloads go over a stream. -/
def isStream (address : RemoteAddress) : Bool :=
  match address with
  | .stream _ => true
  | .udp _ | .datagram _ => false

/-- What a payload is sent as, piece by piece: a frame over a stream, and a datagram otherwise. -/
def piecesOf (address : RemoteAddress) (body : List UInt8) : List (List UInt8) :=
  if isStream address then [(Frame.ofBody body).size, (Frame.ofBody body).body] else [body]

/-- What sending a payload over a connection can come to, and whether it goes well. -/
inductive Sent (address : RemoteAddress) (connection : Nat) (body : List UInt8) :
    List Incident → Bool → Prop
  | datagram (sent : Bool) : isStream address = false →
    Sent address connection body [.datagram connection body sent] sent
  /-- The size of the payload cannot be written. -/
  | tooLarge : isStream address = true → Frame.maxBody < body.length →
    Sent address connection body [] false
  /-- The stream breaks within the size. -/
  | sizeBroken {across : Nat} : isStream address = true → body.length ≤ Frame.maxBody →
    across < (Frame.ofBody body).size.length →
    Sent address connection body [.stream connection (Frame.ofBody body).size across] false
  /-- The stream breaks within the body. -/
  | bodyBroken {across : Nat} : isStream address = true → body.length ≤ Frame.maxBody →
    across < body.length →
    Sent address connection body
      [.stream connection (Frame.ofBody body).size (Frame.ofBody body).size.length,
        .stream connection body across] false
  | whole : isStream address = true → body.length ≤ Frame.maxBody →
    Sent address connection body
      [.stream connection (Frame.ofBody body).size (Frame.ofBody body).size.length,
        .stream connection body body.length] true

/-- Put incidents into the log. -/
def noteAll (t : SocketTransport Unreliable) (incidents : List Incident) :
    SocketTransport Unreliable :=
  { t with network := t.network.noteAll incidents }

variable {t : SocketTransport Unreliable} {payload : String}

/-- Sending a payload comes to one of these, and changes nothing but the log. -/
theorem exists_sent (t : SocketTransport Unreliable) (connection : Nat) (body : List UInt8) :
    ∃ incidents, Sent t.address connection body incidents (t.send connection body).1.isOk ∧
      (t.send connection body).2 = t.noteAll incidents := by
  by_cases hstream : isStream t.address = true
  case neg =>
    -- A datagram is sent or dropped as a whole.
    have hsend : t.send connection body =
        (ofSystem (t.network.sendDatagram connection body).1,
          { t with network := (t.network.sendDatagram connection body).2 }) := by
      unfold send
      split
      next haddress => simp [isStream, haddress] at hstream
      all_goals rfl
    rw [hsend, Unreliable.sendDatagram]
    split
    · exact ⟨_, .datagram false (by simpa using hstream), rfl⟩
    · exact ⟨_, .datagram true (by simpa using hstream), rfl⟩
  have hsend : t.send connection body = t.sendFrame connection body := by
    unfold send
    split
    · rfl
    all_goals
      next haddress => simp [isStream, haddress] at hstream
  rw [hsend, sendFrame]
  by_cases hlarge : Frame.maxBody < body.length
  · rw [if_pos hlarge]
    refine ⟨[], .tooLarge hstream hlarge, ?_⟩
    simp [noteAll, Unreliable.noteAll]
  rw [if_neg hlarge]
  rw [Nat.not_lt] at hlarge
  dsimp only
  -- The size is written first, and then the body.
  obtain hsize | ⟨across, e, hlt, hsize⟩ :=
    t.network.writeStream_cases connection (Frame.ofBody body).size
  case inr =>
    rw [hsize]
    exact ⟨_, .sizeBroken hstream hlarge hlt, rfl⟩
  rw [hsize]
  obtain hbody | ⟨across, e, hlt, hbody⟩ :=
    (t.network.noteAll [.stream connection (Frame.ofBody body).size
      (Frame.ofBody body).size.length]).writeStream_cases connection (Frame.ofBody body).body
  · dsimp only
    rw [hbody, Unreliable.noteAll_noteAll]
    exact ⟨_, .whole hstream hlarge, rfl⟩
  · dsimp only
    rw [hbody, Unreliable.noteAll_noteAll]
    exact ⟨_, .bodyBroken hstream hlarge hlt, rfl⟩

/-- What a write can come to: its outcome, what happens, on which connection, and where the
transport stands then. -/
inductive Written (t : SocketTransport Unreliable) (payload : String) :
    Except TransportError Nat → List Incident → Option Nat → SocketState → Prop
  | closed : t.state = .closed → Written t payload (.error .closed) [] none .closed
  /-- No connection is made. -/
  | unconnected {e : TransportError} : t.state = .disconnected →
    Written t payload (.error e) [.connect none] none .disconnected
  /-- A connection is made, but does not take the write timeout. -/
  | unused {e : TransportError} : t.state = .disconnected →
    Written t payload (.error e) [.connect (some t.network.made)] (some t.network.made)
      .disconnected
  | onNew {outcome : Except TransportError Nat} {incidents : List Incident} :
    t.state = .disconnected →
    Sent t.address t.network.made (textBytes payload) incidents outcome.isOk →
    Written t payload outcome (.connect (some t.network.made) :: incidents) (some t.network.made)
      (if outcome.isOk then .ready t.network.made else .disconnected)
  | onOld {connection : Nat} {outcome : Except TransportError Nat} {incidents : List Incident} :
    t.state = .ready connection →
    Sent t.address connection (textBytes payload) incidents outcome.isOk →
    Written t payload outcome incidents (some connection)
      (if outcome.isOk then .ready connection else .disconnected)

/-- A write over a connection sends the payload, and keeps the connection if that goes well. -/
theorem exists_sent_writeOn (t : SocketTransport Unreliable) (connection : Nat)
    (payload : String) :
    ∃ incidents, Sent t.address connection (textBytes payload) incidents
        (t.writeOn connection payload).1.isOk ∧
      (t.writeOn connection payload).2 =
        { t.noteAll incidents with
          state := if (t.writeOn connection payload).1.isOk then .ready connection
            else .disconnected } := by
  obtain ⟨incidents, hsent, hlater⟩ :=
    exists_sent { t with state := .inconsistent } connection (textBytes payload)
  unfold writeOn
  rcases hsend : ({ t with state := .inconsistent } : SocketTransport Unreliable).send connection
    (textBytes payload) with ⟨outcome, later⟩
  rw [hsend] at hsent hlater
  dsimp only at hsent hlater
  subst hlater
  cases outcome with
  | ok _ => exact ⟨incidents, hsent, rfl⟩
  | error e => exact ⟨incidents, hsent, rfl⟩

/-- An attempt to connect makes no connection, or one that does not take the write timeout, or one
that can be written to. -/
theorem connect_cases (t : SocketTransport Unreliable) :
    let taken : SocketTransport Unreliable := { t with state := .inconsistent }
    (∃ e, taken.connect = (.error e, taken.noteAll [.connect none])) ∨
    (∃ e, taken.connect = (.error e, taken.noteAll [.connect (some t.network.made)])) ∨
    taken.connect = (.ok t.network.made, taken.noteAll [.connect (some t.network.made)]) := by
  intro taken
  have hnetwork : Network.connect taken.network taken.address =
      t.network.connect t.address := rfl
  unfold connect
  rw [hnetwork, Unreliable.connect]
  cases t.network.refuses t.network.incidents with
  | some e => exact .inl ⟨.system e, rfl⟩
  | none =>
    dsimp only
    split
    · exact .inr (.inl ⟨.zeroTimeout, rfl⟩)
    · exact .inr (.inr rfl)

/-- A write comes to one of these, and changes nothing but the log and where the transport
stands. -/
theorem write_cases (h : t.state ≠ .inconsistent) (payload : String) :
    ∃ incidents connection state,
      Written t payload (t.write payload).1 incidents connection state ∧
      (t.write payload).2 = { t.noteAll incidents with state } := by
  have hnone (t : SocketTransport Unreliable) : t.noteAll [] = t := by
    simp [noteAll, Unreliable.noteAll]
  cases hstate : t.state with
  | inconsistent => exact absurd hstate h
  | closed =>
    have hwrite : t.write payload = (.error .closed, t) := by rw [write, hstate]
    rw [hwrite]
    refine ⟨[], none, .closed, .closed hstate, ?_⟩
    rw [hnone, ← hstate]
  | ready connection =>
    have hwrite : t.write payload = t.writeOn connection payload := by rw [write, hstate]
    rw [hwrite]
    obtain ⟨incidents, hsent, hlater⟩ := t.exists_sent_writeOn connection payload
    exact ⟨incidents, _, _, .onOld hstate hsent, hlater⟩
  | disconnected =>
    -- Either there is no connection, or it cannot be used, or the write goes over it.
    obtain ⟨e, hconnect⟩ | ⟨e, hconnect⟩ | hconnect := t.connect_cases
    · have hwrite : t.write payload =
          (.error e, { t.noteAll [.connect none] with state := .disconnected }) := by
        rw [write, hstate]
        dsimp only
        rw [hconnect]
        rfl
      rw [hwrite]
      exact ⟨_, _, _, .unconnected hstate, rfl⟩
    · have hwrite : t.write payload =
          (.error e,
            { t.noteAll [.connect (some t.network.made)] with state := .disconnected }) := by
        rw [write, hstate]
        dsimp only
        rw [hconnect]
        rfl
      rw [hwrite]
      exact ⟨_, _, _, .unused hstate, rfl⟩
    · -- From here on it is a write over the new connection.
      let connected : SocketTransport Unreliable :=
        { t.noteAll [.connect (some t.network.made)] with state := .ready t.network.made }
      have hwrite : t.write payload = connected.writeOn t.network.made payload := by
        rw [write, hstate]
        dsimp only
        rw [hconnect]
        rfl
      rw [hwrite]
      obtain ⟨incidents, hsent, hlater⟩ := connected.exists_sent_writeOn t.network.made payload
      refine ⟨_, _, _, .onNew hstate hsent, ?_⟩
      rw [hlater]
      simp [connected, noteAll]

end SocketTransport

end DogStatsD
