import DogStatsD.Proofs.Socket.Incidents

/-!
# Socket Writes

A write seen from outside: what it was called with, what it came to, and what was asked of the
operating system meanwhile. Over a stream it gets a whole frame across or fails with a part of one.

* `Socket.Frame.IsPartOf`, `Socket.Frame.readAll_flatMap_append`: parts of frames, and how a reader
  is not misled by one;
* `SocketTransport.Report`: a write as it is seen from outside;
* `SocketTransport.isSound_report`: what is true of every write by itself.
-/

namespace DogStatsD

namespace Socket.Frame

/-! ## Frames and parts of frames -/

theorem length_size (body : List UInt8) : (ofBody body).size.length = sizeWidth :=
  length_lowBytes _ _

theorem numberOfBytes_size {body : List UInt8} (h : body.length ≤ maxBody) :
    numberOfBytes (ofBody body).size = body.length :=
  numberOfBytes_lowBytes (Nat.lt_of_le_of_lt h (by decide))

/-- Some bytes are a part of the frame of a body: they begin it and do not end it. -/
structure IsPartOf (part body : List UInt8) : Prop where
  isPrefix : part <+: (ofBody body).bytes
  length_lt : part.length < (ofBody body).bytes.length
  /-- Of a body whose size cannot be written, not even the size is sent. -/
  length_le : part ≠ [] → body.length ≤ maxBody

/-- No frame is empty, since there is the size. -/
theorem IsPartOf.nil (body : List UInt8) : IsPartOf [] body := by
  refine ⟨List.nil_prefix, ?_, nofun⟩
  rw [bytes, List.length_append, length_size, sizeWidth, List.length_nil]
  omega

/-- What a frame is followed by does not hide it. -/
theorem read?_bytes_append {body : List UInt8} (h : body.length ≤ maxBody) (rest : List UInt8) :
    read? ((ofBody body).bytes ++ rest) = some (ofBody body, rest) := by
  have hbytes : (ofBody body).bytes ++ rest = (ofBody body).size ++ (body ++ rest) :=
    List.append_assoc _ _ _
  have hsize := length_size body
  rw [read?, hbytes, List.take_left' hsize, List.drop_left' hsize, numberOfBytes_size h,
    List.take_left, List.drop_left]
  exact if_pos ⟨hsize, rfl⟩

/-- A part of a frame does not read as a frame. -/
theorem IsPartOf.read?_eq_none {part body : List UInt8} (h : IsPartOf part body) :
    read? part = none := by
  obtain ⟨⟨missing, hpart⟩, hlt, hle⟩ := h
  refine if_neg fun ⟨hsize, hbody⟩ => ?_
  have hlength : sizeWidth ≤ part.length := by
    rw [List.length_take] at hsize
    omega
  have hnonempty : part ≠ [] := by
    rintro rfl
    cases hsize
  have hframe : (ofBody body).bytes = (ofBody body).size ++ body := rfl
  -- The size has arrived, and tells how long the body is.
  have htake : part.take sizeWidth = (ofBody body).size := by
    have hfront := congrArg (List.take sizeWidth) (hpart.trans hframe)
    rwa [List.take_append_of_le_length hlength, List.take_left' (length_size body)] at hfront
  rw [htake, numberOfBytes_size (hle hnonempty), List.length_take, List.length_drop] at hbody
  rw [hframe, List.length_append, length_size] at hlt
  omega

/-- A reader finds the frames on a stream, and nothing in a part of a frame behind them. -/
theorem readAll_flatMap_append {bodies : List (List UInt8)} {part body : List UInt8}
    (h : ∀ body ∈ bodies, body.length ≤ maxBody) (hpart : IsPartOf part body) :
    readAll (bodies.flatMap (fun body => (ofBody body).bytes) ++ part) = bodies.map ofBody := by
  induction bodies with
  | nil =>
    have hnone : read? part = none := hpart.read?_eq_none
    rw [readAll]
    split
    · rfl
    · next hsome => cases hnone.symm.trans hsome
  | cons first rest ih =>
    obtain ⟨hfirst, hrest⟩ := List.forall_mem_cons.mp h
    have hread : read? ((first :: rest).flatMap (fun body => (ofBody body).bytes) ++ part) =
        some (ofBody first, rest.flatMap (fun body => (ofBody body).bytes) ++ part) := by
      rw [List.flatMap_cons, List.append_assoc]
      exact read?_bytes_append hfirst _
    rw [readAll]
    split
    · next hnone => cases hread.symm.trans hnone
    · next f rest hsome =>
      obtain ⟨rfl, rfl⟩ := Prod.mk.inj (Option.some.inj (hread.symm.trans hsome))
      rw [ih hrest, List.map_cons]

end Socket.Frame

namespace SocketTransport

open Socket

/-! ## Calls and reports -/

/-- A call of a transport. -/
inductive Call where
  | write (payload : String)
  | setWriteTimeout (timeout : Duration)
  | close

def apply (t : SocketTransport Unreliable) : Call → SocketTransport Unreliable
  | .write payload => (t.write payload).2
  | .setWriteTimeout timeout => (t.setWriteTimeout timeout).2
  | .close => t.close.2

def applyAll (t : SocketTransport Unreliable) (calls : List Call) : SocketTransport Unreliable :=
  calls.foldl apply t

/-- A write as it is seen from outside. -/
structure Report where
  payload : String
  outcome : Except TransportError Nat
  /-- The connection that the write found or made. -/
  connection : Option Nat
  /-- What the transport asked of the operating system. -/
  incidents : List Incident

/-- The frame of the payload of a write. -/
def Report.frame (r : Report) : Frame :=
  .ofBody (textBytes r.payload)

def report (t : SocketTransport Unreliable) (payload : String) : Report :=
  let incidents := (t.write payload).2.network.incidents.drop t.network.incidents.length
  { payload
    outcome := (t.write payload).1
    connection :=
      match t.state with
      | .ready connection => some connection
      | .inconsistent | .disconnected | .closed => incidents.findSome? Incident.made?
    incidents }

/-- The reports of the writes among some calls. -/
def reports (t : SocketTransport Unreliable) : List Call → List Report
  | [] => []
  | .write payload :: rest => t.report payload :: (t.write payload).2.reports rest
  | .setWriteTimeout timeout :: rest => (t.setWriteTimeout timeout).2.reports rest
  | .close :: rest => t.close.2.reports rest

variable {t : SocketTransport Unreliable} {payload : String}

/-- A report tells what the write came to. -/
theorem written_report (h : t.state ≠ .inconsistent) (payload : String) :
    ∃ state, Written t payload (t.report payload).outcome (t.report payload).incidents
        (t.report payload).connection state ∧
      (t.write payload).2 = { t.noteAll (t.report payload).incidents with state } := by
  obtain ⟨incidents, connection, state, hwritten, hlater⟩ := write_cases h payload
  have hincidents : (t.report payload).incidents = incidents := by
    rw [report, hlater]
    exact List.drop_left
  have hconnection : (t.report payload).connection = connection := by
    show (match t.state with
      | .ready connection => some connection
      | .inconsistent | .disconnected | .closed =>
        (t.report payload).incidents.findSome? Incident.made?) = _
    rw [hincidents]
    generalize (t.write payload).1 = outcome at hwritten
    cases hwritten with
    | closed hstate => rw [hstate]; rfl
    | unconnected hstate => rw [hstate]; rfl
    | unused hstate => rw [hstate]; rfl
    | onNew hstate => rw [hstate]; rfl
    | onOld hstate => rw [hstate]
  refine ⟨state, ?_, ?_⟩
  · rw [hincidents, hconnection]
    exact hwritten
  · rw [hincidents]
    exact hlater

/-! ## One write -/

namespace Sent

variable {address : RemoteAddress} {connection : Nat} {body : List UInt8}
  {incidents : List Incident} {ok : Bool}

/-- Sending goes over its own connection, and makes no other. -/
theorem eq_of_mem (h : Sent address connection body incidents ok) :
    ∀ incident ∈ incidents, incident.isConnect = false ∧ incident.made? = none ∧
      ∀ other, other ≠ connection → incident.isOn other = false := by
  intro incident hmem
  cases h with
  | tooLarge => cases hmem
  | datagram | sizeBroken =>
    obtain rfl := List.mem_singleton.mp hmem
    exact ⟨rfl, rfl, fun other hne => by simpa [Incident.isOn] using hne.symm⟩
  | bodyBroken | whole =>
    simp only [List.mem_cons, List.not_mem_nil, or_false] at hmem
    rcases hmem with rfl | rfl
    · exact ⟨rfl, rfl, fun other hne => by simpa [Incident.isOn] using hne.symm⟩
    · exact ⟨rfl, rfl, fun other hne => by simpa [Incident.isOn] using hne.symm⟩

/-- A payload is sent once at most, from the front. -/
theorem offered_prefix (h : Sent address connection body incidents ok) :
    incidents.filterMap Incident.offered? <+: piecesOf address body := by
  cases h with
  | datagram _ haddress =>
    rw [piecesOf, haddress]
    exact List.prefix_rfl
  | tooLarge => exact List.nil_prefix
  | sizeBroken haddress =>
    rw [piecesOf, haddress]
    exact ⟨[body], rfl⟩
  | bodyBroken haddress =>
    rw [piecesOf, haddress]
    exact List.prefix_rfl
  | whole haddress =>
    rw [piecesOf, haddress]
    exact List.prefix_rfl

/-- If sending goes well, the frame has got across. -/
theorem streamBytes_eq (h : Sent address connection body incidents true)
    (haddress : isStream address = true) :
    streamBytes connection incidents = (Frame.ofBody body).bytes ∧
      body.length ≤ Frame.maxBody := by
  cases h with
  | datagram _ hnot => simp [haddress] at hnot
  | whole _ hle =>
    refine ⟨?_, hle⟩
    simp [streamBytes, Incident.bytesOn, Frame.bytes, Frame.ofBody]

/-- If sending fails, what has got across is a part of the frame. -/
theorem isPartOf_streamBytes (h : Sent address connection body incidents false)
    (haddress : isStream address = true) :
    Frame.IsPartOf (streamBytes connection incidents) body := by
  cases h with
  | datagram _ hnot => simp [haddress] at hnot
  | tooLarge => exact .nil body
  | @sizeBroken across _ hle hlt =>
    have hbytes : streamBytes connection
        [.stream connection (Frame.ofBody body).size across] =
          (Frame.ofBody body).size.take across := by
      simp [streamBytes, Incident.bytesOn]
    rw [hbytes]
    refine ⟨(List.take_prefix _ _).trans (List.prefix_append _ _), ?_, fun _ => hle⟩
    rw [Frame.bytes, List.length_append, List.length_take]
    omega
  | @bodyBroken across _ hle hlt =>
    have hbytes : streamBytes connection
        [.stream connection (Frame.ofBody body).size (Frame.ofBody body).size.length,
          .stream connection body across] =
          (Frame.ofBody body).size ++ body.take across := by
      simp [streamBytes, Incident.bytesOn]
    have hframe : (Frame.ofBody body).bytes = (Frame.ofBody body).size ++ body := rfl
    rw [hbytes]
    refine ⟨?_, ?_, fun _ => hle⟩
    · rw [hframe]
      exact (List.prefix_append_right_inj _).mpr (List.take_prefix _ _)
    · rw [hframe, List.length_append, List.length_append, List.length_take]
      omega

end Sent

/-- What is true of every write by itself. -/
structure Report.IsSound (address : RemoteAddress) (r : Report) : Prop where
  connects_le : r.incidents.countP Incident.isConnect ≤ 1
  /-- The payload is sent once at most. -/
  offered_prefix :
    r.incidents.filterMap Incident.offered? <+: piecesOf address (textBytes r.payload)
  /-- Nothing is sent over any other connection. -/
  elsewhere : ∀ other, r.connection ≠ some other →
    ∀ incident ∈ r.incidents, incident.isOn other = false
  /-- What goes well has got the frame across. -/
  streamBytes_eq : isStream address = true → r.outcome.isOk = true →
    ∀ connection, r.connection = some connection →
      streamBytes connection r.incidents = r.frame.bytes ∧
        (textBytes r.payload).length ≤ Frame.maxBody
  /-- What fails has got a part of the frame across. -/
  isPartOf : isStream address = true → r.outcome.isOk = false →
    ∀ connection, r.connection = some connection →
      Frame.IsPartOf (streamBytes connection r.incidents) (textBytes r.payload)

/-- One attempt to connect at most, and nothing else. -/
def IsDial (incidents : List Incident) : Prop :=
  incidents = [] ∨ ∃ made, incidents = [.connect made]

/-- An attempt to connect sends nothing. -/
theorem IsDial.unsent {first : List Incident} (h : IsDial first) :
    first.countP Incident.isConnect ≤ 1 ∧ first.filterMap Incident.offered? = [] ∧
      ∀ other, ∀ incident ∈ first, incident.isOn other = false := by
  rcases h with rfl | ⟨made, rfl⟩
  · exact ⟨Nat.zero_le _, rfl, fun _ => List.forall_mem_nil _⟩
  · exact ⟨Nat.le_refl _, rfl, fun _ => List.forall_mem_singleton.mpr rfl⟩

theorem IsDial.streamBytes_eq {first : List Incident} (h : IsDial first) (connection : Nat) :
    streamBytes connection first = [] :=
  streamBytes_eq_nil (h.unsent.2.2 connection)

/-- A write that fails before it sends anything is sound. -/
theorem isSound_of_isDial (address : RemoteAddress) (payload : String) (e : TransportError)
    (connection : Option Nat) {first : List Incident} (h : IsDial first) :
    Report.IsSound address ⟨payload, .error e, connection, first⟩ := by
  obtain ⟨hconnects, hoffered, hunsent⟩ := h.unsent
  refine ⟨hconnects, ?_, fun other _ => hunsent other, ?_, ?_⟩
  · exact hoffered ▸ List.nil_prefix
  · intro _ hok
    cases hok
  · intro _ _ own _
    dsimp only
    rw [h.streamBytes_eq]
    exact .nil _

/-- A write that sends its payload over one connection is sound. -/
theorem isSound_of_sent {address : RemoteAddress} {payload : String}
    {outcome : Except TransportError Nat} {connection : Nat} {first incidents : List Incident}
    (h : IsDial first)
    (hsent : Sent address connection (textBytes payload) incidents outcome.isOk) :
    Report.IsSound address ⟨payload, outcome, some connection, first ++ incidents⟩ := by
  obtain ⟨hconnects, hoffered, hunsent⟩ := h.unsent
  -- Dialling sends nothing.
  have hbytes (own : Nat) : streamBytes own (first ++ incidents) = streamBytes own incidents := by
    rw [streamBytes_append, h.streamBytes_eq, List.nil_append]
  refine ⟨?_, ?_, ?_, ?_, ?_⟩
  · have hnone : incidents.countP Incident.isConnect = 0 :=
      List.countP_eq_zero.mpr fun incident hmem => by simp [(hsent.eq_of_mem incident hmem).1]
    rw [List.countP_append, hnone]
    exact hconnects
  · dsimp only
    rw [List.filterMap_append, hoffered, List.nil_append]
    exact hsent.offered_prefix
  -- All that is sent goes over this connection.
  · intro other hne
    have hother : other ≠ connection := fun heq => hne (congrArg some heq.symm)
    exact List.forall_mem_append.mpr ⟨hunsent other,
      fun incident hmem => (hsent.eq_of_mem incident hmem).2.2 other hother⟩
  · intro haddress hok own hown
    obtain rfl := Option.some.inj hown
    dsimp only at hok ⊢
    rw [hok] at hsent
    rw [hbytes]
    exact hsent.streamBytes_eq haddress
  · intro haddress hfailed own hown
    obtain rfl := Option.some.inj hown
    dsimp only at hfailed ⊢
    rw [hfailed] at hsent
    rw [hbytes]
    exact hsent.isPartOf_streamBytes haddress

/-- Every write is sound. -/
theorem isSound_report (h : t.state ≠ .inconsistent) (payload : String) :
    (t.report payload).IsSound t.address := by
  obtain ⟨state, hwritten, -⟩ := written_report h payload
  have hpayload : (t.report payload).payload = payload := rfl
  generalize t.report payload = r at hwritten hpayload ⊢
  obtain ⟨payload', outcome, connection, incidents⟩ := r
  obtain rfl : payload' = payload := hpayload
  cases hwritten with
  | closed => exact isSound_of_isDial _ _ _ _ (.inl rfl)
  | unconnected => exact isSound_of_isDial _ _ _ _ (.inr ⟨_, rfl⟩)
  | unused => exact isSound_of_isDial _ _ _ _ (.inr ⟨_, rfl⟩)
  | onNew _ hsent => exact isSound_of_sent (.inr ⟨_, rfl⟩) hsent
  | onOld _ hsent => exact isSound_of_sent (.inl rfl) hsent

end SocketTransport

end DogStatsD
