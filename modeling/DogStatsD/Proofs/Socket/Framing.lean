import DogStatsD.Proofs.Socket.Reports

/-!
# Frames across Failures

A stream is cut into frames by the sizes in it, so that a single byte missing in the middle would
make nonsense of everything behind it. A socket transport never lets that happen: it drops a
connection with the first write that fails, and a frame that is broken off is the last thing sent.

* `SocketTransport.Leaves`, `SocketTransport.Course`: where one write leaves the transport, and how
  calls follow each other;
* `SocketTransport.Course.exists_carried`: the writes on a connection go well, up to one that fails
  and is the last;
* `SocketTransport.Carried.exists_framed`: they leave frames on its stream, and at most a part of
  one more;
* `SocketTransport.Framed.readAll_eq`: a reader finds the frames of the writes that went well;
* `SocketTransport.framing_across_failures`: what that comes to, for every sequence of calls and
  whatever the operating system does.
-/

namespace DogStatsD

open Socket

namespace SocketTransport

variable {t : SocketTransport Unreliable}

/-! ## One write after the other -/

/-- A transport between calls: it is in no intermediate state, and its connection was made. -/
structure Sound (t : SocketTransport Unreliable) : Prop where
  consistent : t.state ≠ .inconsistent
  made : ∀ connection, t.state = .ready connection → connection < t.network.made

/-- Connections that were made stay made. -/
theorem made_le_noteAll (n : Unreliable) (incidents : List Incident) :
    n.made ≤ (n.noteAll incidents).made := by
  rw [Unreliable.made, Unreliable.made, Unreliable.noteAll, List.countP_append]
  exact Nat.le_add_right _ _

/-- A new connection is one more. -/
theorem made_lt_noteAll (n : Unreliable) (own : Nat) (incidents : List Incident) :
    n.made < (n.noteAll (.connect (some own) :: incidents)).made := by
  rw [Unreliable.made, Unreliable.made, Unreliable.noteAll, List.countP_append,
    List.countP_cons_of_pos rfl]
  omega

/-- Where a write leaves the transport: its connection is made by then, and was not before unless
the transport had it; and only a write that goes well keeps its connection. -/
structure Leaves (t : SocketTransport Unreliable) (r : Report)
    (later : SocketTransport Unreliable) : Prop where
  sound : later.Sound
  made_le : t.network.made ≤ later.network.made
  connection_lt : ∀ connection, r.connection = some connection →
    connection < later.network.made ∧ (t.state = .ready connection ∨ t.network.made ≤ connection)
  state_eq : ∀ connection, later.state = .ready connection → r.connection = some connection
  disconnected : r.outcome.isOk = false → r.connection.isSome → later.state = .disconnected

/-- A write that has sent its payload keeps its connection if that went well. -/
theorem leaves_of_sent {r : Report} {connection : Nat} (hown : r.connection = some connection)
    (hlt : connection < (t.network.noteAll r.incidents).made)
    (hnew : t.state = .ready connection ∨ t.network.made ≤ connection) :
    Leaves t r
      { t.noteAll r.incidents with
        state := if r.outcome.isOk then .ready connection else .disconnected } := by
  have hstate {other : Nat} (h : (if r.outcome.isOk then SocketState.ready connection
      else .disconnected) = .ready other) : connection = other := by
    split at h
    · exact SocketState.ready.inj h
    · cases h
  refine ⟨⟨?_, ?_⟩, made_le_noteAll _ _, ?_, ?_, ?_⟩
  · dsimp only
    split <;> nofun
  · intro other hother
    exact hstate hother ▸ hlt
  · intro other hother
    obtain rfl := Option.some.inj (hown.symm.trans hother)
    exact ⟨hlt, hnew⟩
  · intro other hother
    rw [hown, hstate hother]
  · intro hfailed _
    dsimp only
    rw [hfailed]
    rfl

/-- Wherever a write leaves a sound transport, its report tells. -/
theorem Sound.leaves (h : t.Sound) (payload : String) :
    Leaves t (t.report payload) (t.write payload).2 := by
  obtain ⟨state, hwritten, hlater⟩ := written_report h.consistent payload
  rw [hlater]
  have hmade := made_le_noteAll t.network (t.report payload).incidents
  generalize t.report payload = r at hwritten hmade ⊢
  obtain ⟨payload', outcome, connection, incidents⟩ := r
  cases hwritten with
  | closed => exact ⟨⟨nofun, nofun⟩, hmade, nofun, nofun, nofun⟩
  | unconnected => exact ⟨⟨nofun, nofun⟩, hmade, nofun, nofun, nofun⟩
  | unused =>
    refine ⟨⟨nofun, nofun⟩, hmade, ?_, nofun, fun _ _ => rfl⟩
    intro connection hown
    obtain rfl := Option.some.inj hown
    exact ⟨made_lt_noteAll _ _ _, .inr (Nat.le_refl _)⟩
  | onNew => exact leaves_of_sent rfl (made_lt_noteAll _ _ _) (.inr (Nat.le_refl _))
  | onOld hready =>
    exact leaves_of_sent rfl (Nat.lt_of_lt_of_le (h.made _ hready) hmade) (.inl hready)

/-- A call that writes nothing: the transport stays where it is, or is closed. -/
structure Quiet (t later : SocketTransport Unreliable) : Prop where
  network_eq : later.network = t.network
  address_eq : later.address = t.address
  state_eq : later.state = t.state ∨ later.state = .closed

theorem setWriteTimeout_snd (t : SocketTransport Unreliable) (timeout : Duration) :
    (t.setWriteTimeout timeout).2 = { t with writeTimeout := timeout } := by
  unfold setWriteTimeout
  split <;> rfl

/-- To set the timeout writes nothing. -/
theorem quiet_setWriteTimeout (t : SocketTransport Unreliable) (timeout : Duration) :
    Quiet t (t.setWriteTimeout timeout).2 := by
  rw [setWriteTimeout_snd]
  exact ⟨rfl, rfl, .inl rfl⟩

/-- To close a transport writes nothing. -/
theorem quiet_close (t : SocketTransport Unreliable) : Quiet t t.close.2 :=
  ⟨rfl, rfl, .inr rfl⟩

/-- A call that writes nothing keeps a transport sound. -/
theorem Quiet.sound {later : SocketTransport Unreliable} (h : Quiet t later) (ht : t.Sound) :
    later.Sound := by
  obtain ⟨hnetwork, -, hstate⟩ := h
  obtain ⟨hconsistent, hmade⟩ := ht
  rcases hstate with hstate | hstate
  · refine ⟨hstate ▸ hconsistent, fun connection hready => ?_⟩
    rw [hnetwork]
    exact hmade connection (hstate ▸ hready)
  · refine ⟨?_, ?_⟩ <;> rw [hstate] <;> nofun

/-- From one transport to a later one, write by write. -/
inductive Course : SocketTransport Unreliable → List Report → SocketTransport Unreliable → Prop
  | stay (t : SocketTransport Unreliable) : Course t [] t
  | write {t later : SocketTransport Unreliable} {reports : List Report} (payload : String) :
    Course (t.write payload).2 reports later → Course t (t.report payload :: reports) later
  | quiet {t next later : SocketTransport Unreliable} {reports : List Report} :
    Quiet t next → Course next reports later → Course t reports later

/-- Any calls make up a course: writes with their reports, and calls between them that write
nothing. -/
theorem course (t : SocketTransport Unreliable) (calls : List Call) :
    Course t (t.reports calls) (t.applyAll calls) := by
  induction calls generalizing t with
  | nil => exact .stay t
  | cons call rest ih =>
    cases call with
    | write payload => exact .write payload (ih _)
    | setWriteTimeout timeout => exact .quiet (quiet_setWriteTimeout t timeout) (ih _)
    | close => exact .quiet (quiet_close t) (ih _)

namespace Course

variable {later : SocketTransport Unreliable} {reports : List Report}

/-- All the way the transport stays sound and keeps its address, every write is sound, and the log
grows by what happens in the writes. -/
theorem sound (h : Course t reports later) (ht : t.Sound) :
    later.Sound ∧ later.address = t.address ∧ (∀ r ∈ reports, r.IsSound t.address) ∧
      later.network.incidents = t.network.incidents ++ reports.flatMap Report.incidents := by
  induction h with
  | stay t => exact ⟨ht, rfl, List.forall_mem_nil _, by simp⟩
  | @write t later reports payload _ ih =>
    obtain ⟨hsound, haddress, hreports, hlog⟩ := ih (ht.leaves payload).sound
    obtain ⟨state, -, hwrite⟩ := written_report ht.consistent payload
    have hkept : (t.write payload).2.address = t.address := by rw [hwrite]; rfl
    rw [hkept] at haddress hreports
    refine ⟨hsound, haddress,
      List.forall_mem_cons.mpr ⟨isSound_report ht.consistent payload, hreports⟩, ?_⟩
    rw [hlog, hwrite, List.flatMap_cons, ← List.append_assoc]
    rfl
  | quiet hquiet _ ih =>
    obtain ⟨hsound, haddress, hreports, hlog⟩ := ih (hquiet.sound ht)
    rw [hquiet.address_eq] at haddress hreports
    exact ⟨hsound, haddress, hreports, hquiet.network_eq ▸ hlog⟩

/-- A connection that the transport has given up is never used again. -/
theorem connection_ne (h : Course t reports later) (ht : t.Sound) {connection : Nat}
    (hlt : connection < t.network.made) (hleft : t.state ≠ .ready connection) :
    ∀ r ∈ reports, r.connection ≠ some connection := by
  induction h with
  | stay t => exact List.forall_mem_nil _
  | write payload _ ih =>
    have hleaves := ht.leaves payload
    have hne : (report _ payload).connection ≠ some connection := fun hown =>
      (hleaves.connection_lt connection hown).2.elim hleft (Nat.not_le.mpr hlt)
    exact List.forall_mem_cons.mpr ⟨hne, ih hleaves.sound
      (Nat.lt_of_lt_of_le hlt hleaves.made_le) (mt (hleaves.state_eq connection) hne)⟩
  | quiet hquiet _ ih =>
    refine ih (hquiet.sound ht) (hquiet.network_eq ▸ hlt) ?_
    rcases hquiet.state_eq with hstate | hstate
    · exact hstate ▸ hleft
    · rw [hstate]
      nofun

end Course

/-- The writes on a connection: those that go well, and behind them perhaps one that fails. -/
structure Carried (reports : List Report) (connection : Nat) (good : List Report)
    (failed : Option Report) : Prop where
  filter_eq : reports.filter (fun r => r.connection == some connection) = good ++ failed.toList
  good_ok : ∀ r ∈ good, r.outcome.isOk = true
  failed_not_ok : ∀ r ∈ failed, r.outcome.isOk = false

/-- The writes on a connection go well, up to one that fails and is the last. -/
theorem Course.exists_carried {later : SocketTransport Unreliable} {reports : List Report}
    (h : Course t reports later) (ht : t.Sound) (connection : Nat) :
    ∃ good failed, Carried reports connection good failed := by
  induction h with
  | stay t => exact ⟨[], none, rfl, List.forall_mem_nil _, nofun⟩
  | quiet hquiet _ ih => exact ih (hquiet.sound ht)
  | @write t later reports payload hrest ih =>
    have hleaves := ht.leaves payload
    by_cases hown : (t.report payload).connection = some connection
    case neg =>
      obtain ⟨good, failed, hfilter, hgood, hfailed⟩ := ih hleaves.sound
      refine ⟨good, failed, ?_, hgood, hfailed⟩
      rw [List.filter_cons_of_neg (by simpa using hown), hfilter]
    case pos =>
      cases hok : (t.report payload).outcome.isOk with
      | true =>
        obtain ⟨good, failed, hfilter, hgood, hfailed⟩ := ih hleaves.sound
        refine ⟨t.report payload :: good, failed, ?_, List.forall_mem_cons.mpr ⟨hok, hgood⟩,
          hfailed⟩
        rw [List.filter_cons_of_pos (by simpa using hown), hfilter]
        rfl
      | false =>
        -- The transport drops the connection, so that no later write is on it.
        have hdropped : (t.write payload).2.state ≠ .ready connection := by
          rw [hleaves.disconnected hok (by rw [hown]; rfl)]
          nofun
        have hnone := hrest.connection_ne hleaves.sound
          (hleaves.connection_lt connection hown).1 hdropped
        refine ⟨[], some (t.report payload), ?_, List.forall_mem_nil _, ?_⟩
        · rw [List.filter_cons_of_pos (by simpa using hown), List.filter_eq_nil_iff.mpr]
          · rfl
          · intro r hmem
            simpa using hnone r hmem
        · rintro r ⟨⟩
          exact hok

/-! ## What gets across -/

/-- What gets across on a connection is what the writes on it get across. -/
theorem streamBytes_flatMap {address : RemoteAddress} (connection : Nat) {reports : List Report}
    (h : ∀ r ∈ reports, r.IsSound address) :
    streamBytes connection (reports.flatMap Report.incidents) =
      (reports.filter fun r => r.connection == some connection).flatMap
        fun r => streamBytes connection r.incidents := by
  induction reports with
  | nil => rfl
  | cons r rest ih =>
    obtain ⟨hr, hrest⟩ := List.forall_mem_cons.mp h
    rw [List.flatMap_cons, streamBytes_append, ih hrest]
    by_cases hown : r.connection = some connection
    · rw [List.filter_cons_of_pos (by simpa using hown), List.flatMap_cons]
    · rw [List.filter_cons_of_neg (by simpa using hown),
        streamBytes_eq_nil (hr.elsewhere connection hown), List.nil_append]

/-- What there is on the stream of a connection: the frames of the writes that go well, with sizes
that tell how long they are, and behind them a part of the frame of the write that fails. -/
structure Framed (stream : List UInt8) (good : List Report) (failed : Option Report)
    (part : List UInt8) : Prop where
  stream_eq : stream = good.flatMap (fun r => r.frame.bytes) ++ part
  length_le : ∀ r ∈ good, (textBytes r.payload).length ≤ Frame.maxBody
  part_eq : failed = none → part = []
  isPartOf : ∀ r ∈ failed, Frame.IsPartOf part (textBytes r.payload)

/-- The writes on a connection leave frames on its stream. -/
theorem Carried.exists_framed {address : RemoteAddress} {reports good : List Report}
    {connection : Nat} {failed : Option Report} (h : Carried reports connection good failed)
    (hsound : ∀ r ∈ reports, r.IsSound address) (haddress : isStream address = true) :
    ∃ part, Framed (streamBytes connection (reports.flatMap Report.incidents)) good failed
      part := by
  obtain ⟨hfilter, hgood, hfailed⟩ := h
  -- Each of the writes is one of the reports, and on the connection.
  have hmem {r : Report} (hr : r ∈ good ++ failed.toList) :
      r.IsSound address ∧ r.connection = some connection := by
    rw [← hfilter, List.mem_filter] at hr
    exact ⟨hsound r hr.1, by simpa using hr.2⟩
  have hwhole {r : Report} (hr : r ∈ good) :
      streamBytes connection r.incidents = r.frame.bytes ∧
        (textBytes r.payload).length ≤ Frame.maxBody := by
    obtain ⟨hsound, hown⟩ := hmem (List.mem_append_left _ hr)
    exact hsound.streamBytes_eq haddress (hgood r hr) connection hown
  refine ⟨failed.toList.flatMap fun r => streamBytes connection r.incidents, ?_,
    fun r hr => (hwhole hr).2, ?_, ?_⟩
  · rw [streamBytes_flatMap connection hsound, hfilter, List.flatMap_append,
      List.flatMap_congr fun r hr => (hwhole hr).1]
  · rintro rfl
    rfl
  · rintro r hr
    obtain rfl : failed = some r := hr
    obtain ⟨hsound, hown⟩ := hmem (List.mem_append_right good (List.mem_singleton_self r))
    have hpart := hsound.isPartOf haddress (hfailed r rfl) connection hown
    simpa using hpart

/-- A reader finds the frames of the writes that went well, and no other. -/
theorem Framed.readAll_eq {stream part : List UInt8} {good : List Report}
    {failed : Option Report} (h : Framed stream good failed part) :
    Frame.readAll stream = good.map Report.frame := by
  obtain ⟨rfl, hle, hnone, hpart⟩ := h
  have hrest : ∃ body, Frame.IsPartOf part body := by
    cases failed with
    | none => exact ⟨[], hnone rfl ▸ .nil []⟩
    | some r => exact ⟨_, hpart r rfl⟩
  obtain ⟨body, hrest⟩ := hrest
  have hbodies : ∀ body ∈ good.map fun r => textBytes r.payload, body.length ≤ Frame.maxBody :=
    List.forall_mem_map.mpr hle
  have hread := Frame.readAll_flatMap_append hbodies hrest
  rw [List.flatMap_map, List.map_map] at hread
  exact hread

/-! ## After any calls -/

/-- A transport that has asked nothing of the operating system yet. -/
def new (address : RemoteAddress) (writeTimeout : Duration) (network : Unreliable) :
    SocketTransport Unreliable :=
  { address, writeTimeout, network := { network with incidents := [] } }

/-- A new transport has no connection, and is sound. -/
theorem sound_new (address : RemoteAddress) (writeTimeout : Duration) (network : Unreliable) :
    (new address writeTimeout network).Sound :=
  ⟨nofun, nofun⟩

/-- A write to a closed transport fails, and nothing else happens. -/
theorem write_of_closed (h : t.state = .closed) (payload : String) :
    t.write payload = (.error .closed, t) := by
  rw [write, h]

/-- Once closed, always closed. -/
theorem state_applyAll_of_closed (h : t.state = .closed) (calls : List Call) :
    (t.applyAll calls).state = .closed := by
  induction calls generalizing t with
  | nil => exact h
  | cons call rest ih =>
    refine ih (t := t.apply call) ?_
    cases call with
    | write payload =>
      show (t.write payload).2.state = .closed
      rw [write_of_closed h]
      exact h
    | setWriteTimeout timeout =>
      show (t.setWriteTimeout timeout).2.state = .closed
      rw [setWriteTimeout_snd]
      exact h
    | close => rfl

/-- After a call to close, a transport stays closed, whatever is called later. -/
theorem state_applyAll_of_close_mem {calls : List Call} (h : .close ∈ calls) :
    (t.applyAll calls).state = .closed := by
  obtain ⟨front, back, rfl⟩ := List.append_of_mem h
  rw [applyAll, List.foldl_append]
  exact state_applyAll_of_closed rfl back

theorem state_applyAll_setWriteTimeout (t : SocketTransport Unreliable)
    (timeouts : List Duration) :
    (t.applyAll (timeouts.map .setWriteTimeout)).state = t.state := by
  induction timeouts generalizing t with
  | nil => rfl
  | cons timeout rest ih =>
    refine (ih (t.setWriteTimeout timeout).2).trans ?_
    rw [setWriteTimeout_snd]

/-- A write does not close, and if it fails the transport is without a connection. -/
theorem Sound.state_write (ht : t.Sound) (hopen : t.state ≠ .closed) (payload : String) :
    (t.write payload).2.state ≠ .closed ∧
      ((t.write payload).1.isOk = false → (t.write payload).2.state = .disconnected) := by
  obtain ⟨state, hwritten, hlater⟩ := written_report ht.consistent payload
  have houtcome : (t.write payload).1 = (t.report payload).outcome := rfl
  rw [hlater, houtcome]
  generalize t.report payload = r at hwritten ⊢
  obtain ⟨_, outcome, connection, incidents⟩ := r
  cases hwritten with
  | closed hstate => exact absurd hstate hopen
  | unconnected | unused => exact ⟨nofun, fun _ => rfl⟩
  | onNew | onOld =>
    refine ⟨?_, fun hfailed => ?_⟩
    · dsimp only
      split <;> nofun
    · dsimp only
      rw [hfailed]
      rfl

/-- Only a call to close closes a transport: failures do not. -/
theorem Sound.state_applyAll_ne_closed (ht : t.Sound) (hopen : t.state ≠ .closed)
    {calls : List Call} (h : .close ∉ calls) : (t.applyAll calls).state ≠ .closed := by
  induction calls generalizing t with
  | nil => exact hopen
  | cons call rest ih =>
    obtain ⟨hcall, hrest⟩ := not_or.mp (mt List.mem_cons.mpr h)
    cases call with
    | write payload =>
      exact ih (ht.leaves payload).sound (ht.state_write hopen payload).1 hrest
    | setWriteTimeout timeout =>
      have hstate : (t.setWriteTimeout timeout).2.state = t.state := by rw [setWriteTimeout_snd]
      exact ih ((quiet_setWriteTimeout t timeout).sound ht) (hstate ▸ hopen) hrest
    | close => exact absurd rfl hcall

/-- Without a connection, a write connects before anything else. -/
theorem exists_incidents_eq_connect_cons (h : t.state = .disconnected) (payload : String) :
    ∃ made rest, (t.report payload).incidents = .connect made :: rest := by
  have hconsistent : t.state ≠ .inconsistent := by rw [h]; nofun
  obtain ⟨state, hwritten, -⟩ := written_report hconsistent payload
  generalize t.report payload = r at hwritten ⊢
  obtain ⟨_, outcome, connection, incidents⟩ := r
  cases hwritten with
  | closed hstate | onOld hstate => exact nomatch h.symm.trans hstate
  | unconnected | unused | onNew => exact ⟨_, _, rfl⟩

/-- **Frames across failures.** Whatever is called, and whatever the operating system refuses, a
transport is between calls in no intermediate state. The loop of a write ends, after one attempt to
connect at most, and after the payload is sent once at most. A write that fails leaves no
connection, so that the next one connects first; and once closed, a write refuses and asks for
nothing. All that happens, happens in writes. The writes on a connection go well up to one that
fails and is the last, no other write sends anything over it, and a stream has the frames of those
that went well and at most a part of the frame of the one that failed. -/
theorem framing_across_failures (address : RemoteAddress) (writeTimeout : Duration)
    (network : Unreliable) (calls : List Call) :
    let t := (new address writeTimeout network).applyAll calls
    let reports := (new address writeTimeout network).reports calls
    t.state ≠ .inconsistent ∧
    (∀ payload,
      (Attempt.pass payload)^[2] (.going t) = .done (t.write payload).1 (t.write payload).2 ∧
      (t.report payload).incidents.countP Incident.isConnect ≤ 1 ∧
      (t.report payload).incidents.filterMap Incident.offered? <+:
        piecesOf address (textBytes payload)) ∧
    (.close ∉ calls → ∀ payload, (t.write payload).1.isOk = false →
      (t.write payload).2.state = .disconnected ∧
      ∀ (timeouts : List Duration) (next : String), ∃ made rest,
        (((t.write payload).2.applyAll (timeouts.map .setWriteTimeout)).report next).incidents =
          .connect made :: rest) ∧
    (.close ∈ calls → ∀ payload, t.write payload = (.error .closed, t)) ∧
    t.network.incidents = reports.flatMap Report.incidents ∧
    ∀ connection, ∃ good failed, Carried reports connection good failed ∧
      (∀ r ∈ reports, r.connection ≠ some connection →
        ∀ incident ∈ r.incidents, incident.isOn connection = false) ∧
      (isStream address = true →
        ∃ part, Framed (streamBytes connection t.network.incidents) good failed part) := by
  intro t reports
  have hnew := sound_new address writeTimeout network
  have hcourse := (new address writeTimeout network).course calls
  obtain ⟨ht, haddress, hreports, hlog⟩ := hcourse.sound hnew
  rw [show (new address writeTimeout network).network.incidents = [] from rfl,
    List.nil_append] at hlog
  refine ⟨ht.consistent, fun payload => ?_, fun hclose payload hfailed => ?_,
    fun hclose payload => write_of_closed (state_applyAll_of_close_mem hclose) payload, hlog,
    fun connection => ?_⟩
  -- What one write does is bounded by its report, whatever came before.
  · have hsound := isSound_report ht.consistent payload
    rw [haddress] at hsound
    exact ⟨iterate_pass t payload, hsound.connects_le, hsound.offered_prefix⟩
  · have hopen : t.state ≠ .closed := hnew.state_applyAll_ne_closed nofun hclose
    have hdisconnected := (ht.state_write hopen payload).2 hfailed
    refine ⟨hdisconnected, fun timeouts next => exists_incidents_eq_connect_cons ?_ next⟩
    rw [state_applyAll_setWriteTimeout]
    exact hdisconnected
  -- What one connection carries is put together from the reports of the writes over it.
  · obtain ⟨good, failed, hcarried⟩ := hcourse.exists_carried hnew connection
    refine ⟨good, failed, hcarried, fun r hr => (hreports r hr).elsewhere connection,
      fun hstream => ?_⟩
    rw [hlog]
    exact hcarried.exists_framed hreports hstream

/-- A network whose first stream breaks within the body of the second frame. -/
def breakingOnce : Unreliable where
  refuses _ := none
  breaks incidents := if incidents.length = 4 then some (1, .brokenPipe) else none
  drops _ := none

/-- Of three payloads the second one breaks the stream, and the third goes over a new connection. -/
theorem framing_across_failures_broken_body :
    let start := new (.stream "statsd.socket") (.ofParts 1 0) breakingOnce
    let calls := [.write "a", .write "bcd", .write "e", .close]
    let t := start.applyAll calls
    streamBytes 0 t.network.incidents = [1, 0, 0, 0, 97, 3, 0, 0, 0, 98] ∧
    streamBytes 1 t.network.incidents = [1, 0, 0, 0, 101] ∧
    (∀ connection, ∃ good failed, Carried (start.reports calls) connection good failed ∧
      ∃ part, Framed (streamBytes connection t.network.incidents) good failed part) ∧
    ∀ payload, t.write payload = (.error .closed, t) := by
  intro start calls t
  obtain ⟨-, -, -, hclosed, -, hcarried⟩ :=
    framing_across_failures (.stream "statsd.socket") (.ofParts 1 0) breakingOnce calls
  refine ⟨by decide +kernel, by decide +kernel, fun connection => ?_, ?_⟩
  · obtain ⟨good, failed, hcarried, -, hframed⟩ := hcarried connection
    exact ⟨good, failed, hcarried, hframed rfl⟩
  · exact hclosed (by simp [calls])

end SocketTransport

end DogStatsD
