import DogStatsD.Proofs.System.Calls

/-!
# One Call after the Other

Callers that wait for each other, and threads that keep up with them, do what a client does in one
go.

* `System.applyAll`: what a client makes of calls one after the other;
* `System.Calm.request`: a call that nobody interferes with;
* `System.exists_run_applyAll`: such calls, one after the other.
-/

namespace DogStatsD

variable {τ : Type}

theorem Client.closed_flushAggregator [Transport τ] (c : Client τ) :
    c.flushAggregator.closed = c.closed := by
  unfold flushAggregator
  split <;> rfl

theorem Client.closed_close [Transport τ] (c : Client τ) : c.close.2.closed = true := by
  unfold close
  split
  next hclosed => exact hclosed
  · exact closed_flushAggregator _

namespace System

variable {limits : Limits} {s s' : System τ} {i : Nat}

/-- Nobody is in the middle of a call. -/
structure Calm (limits : Limits) (s : System τ) : Prop where
  neat : s.Neat limits
  orderly : s.Orderly
  idle : ∀ caller ∈ s.callers, caller = .idle
  ready : s.client.closed = false → s.Ready

/-- Nothing is left in a client that is closed. -/
theorem Calm.empty (h : s.Calm limits) (hclosed : s.client.closed = true) : s.Empty := by
  refine h.orderly.empty h.neat ?_
  cases hphase : s.phase with
  | opened => exact absurd hphase (h.orderly.closed_iff.mp hclosed)
  | closing i stage =>
    have hclosing := (h.orderly.closing_iff i).mpr ⟨stage, hphase⟩
    cases h.idle _ (List.mem_of_getElem? hclosing)
  | closed => rfl

variable [Transport τ]

/-- What a client makes of a request, while its threads keep up with the caller. -/
def Request.apply (c : Client τ) : Request → Except SendError Unit × Client τ
  | .send sample => c.send sample
  | .flush => c.flush
  | .close => c.close

/-- What a client makes of requests one after the other. -/
def applyAll (c : Client τ) : List (Nat × Request) → List Answer × Client τ
  | [] => ([], c)
  | (i, request) :: rest =>
    let (outcome, c) := request.apply c
    let (answers, c) := applyAll c rest
    (⟨i, request, outcome⟩ :: answers, c)

/-- After steps that leave every caller where it was, nobody is in the middle of a call either. -/
theorem Calm.leads (h : s.Calm limits) (hleads : s.Leads s') (hcallers : s'.callers = s.callers)
    (hready : s'.client.closed = false → s'.Ready) : s'.Calm limits := by
  obtain ⟨moves, hrun⟩ := hleads
  exact ⟨h.neat.run hrun, h.orderly.run h.neat hrun, hcallers ▸ h.idle, hready⟩

/-- The threads of a client that is closed have nothing to catch up with. -/
theorem Empty.catchUp_eq (h : s.Empty) : s.client.catchUp = s.client := by
  have hshards : s.client.pipeline.atShards Shard.catchUp = s.client.pipeline :=
    Pipeline.atShards_eq_self fun shard hshard o d =>
      Shard.Quiet.catchUp_eq (h.channels shard hshard) o d
  have houtbox : s.client.pipeline.outbox.catchUp = s.client.pipeline.outbox := by
    rw [Outbox.catchUp, Outbox.drain_of_queue_eq_nil h.queue_eq, ite_self]
  rw [Client.catchUp, Pipeline.catchUp, hshards, houtbox]

/-- A caller among others that wait, and threads that keep up with it, do what the client does in
one go. -/
theorem Calm.request (h : s.Calm limits) (hi : i < s.callers.length) (request : Request) :
    ∃ s', s.Leads s' ∧ s'.Calm limits ∧ s'.callers = s.callers ∧
      s'.client = (request.apply s.client).2 ∧
      s'.log = s.log ++ [⟨i, request, (request.apply s.client).1⟩] := by
  have hidle : s.callers[i]? = some .idle := by
    rw [List.getElem?_eq_getElem hi, h.idle _ (List.getElem_mem hi)]
  cases hclosed : s.client.closed with
  | true =>
    -- A client that was closed refuses every request.
    have happly : request.apply s.client = (request.refusal, s.client) := by
      cases request with
      | send sample =>
        simp only [Request.apply, Client.send, Client.submit, hclosed, if_true,
          (h.empty hclosed).catchUp_eq, Request.refusal]
      | flush => simp only [Request.apply, Client.flush, hclosed, if_true, Request.refusal]
      | close => simp only [Request.apply, Client.close, hclosed, if_true, Request.refusal]
    have hleads := leads_step (m := .call i request) (call?_of_closed hclosed hidle request)
    rw [happly]
    refine ⟨_, hleads, h.leads hleads rfl fun hopen => ?_, rfl, rfl, rfl⟩
    rw [hclosed] at hopen
    cases hopen
  | false =>
    have hready := h.ready hclosed
    cases request with
    | send sample =>
      -- The caller goes first, and then receivers and courier catch up.
      have hsubmitted := leads_submit hready hidle hclosed sample
      have halike := s.client.alike_submit sample
      have hlater := h.leads hsubmitted rfl fun _ => hready.alike halike _
      have hcaught := leads_catchUp hlater.orderly.served
        (halike.of_running hready.courier_idle)
      have hleads := hsubmitted.trans hcaught
      refine ⟨_, hleads, h.leads hleads rfl fun _ => ?_, rfl, rfl, rfl⟩
      exact hready.alike (halike.trans (Pipeline.alike_catchUp _)) _
    | flush =>
      have hleads := leads_flush hready hidle hclosed
      refine ⟨_, hleads, h.leads hleads rfl fun _ => ?_, rfl, rfl, rfl⟩
      exact hready.alike (s.client.alike_flush) _
    | close =>
      obtain ⟨s', hleads, hcallers, hclient, hlog⟩ := leads_close hready h.idle hidle hclosed
      refine ⟨s', hleads, h.leads hleads hcallers fun hopen => ?_, hcallers, hclient, hlog⟩
      rw [hclient, Client.closed_close] at hopen
      cases hopen

/-- At first, nobody is in the middle of a call. -/
theorem calm_start {config : Config} {transport : τ} {route : String → Nat} {draws : Draws}
    {client : Client τ} (hbuild : config.buildWith transport route draws = .ok client)
    (callers : Nat) : (start client callers).Calm config.limits := by
  refine ⟨neat_start hbuild callers, orderly_start hbuild callers,
    fun caller hcaller => List.eq_of_mem_replicate hcaller, fun _ => ⟨?_, ?_, rfl, rfl⟩⟩
  · simp only [start]
    cases client.pipeline.intake <;> rfl
  · intro t ht
    obtain hmem | hmem := List.mem_append.mp ht
    · split at hmem
      · rw [List.mem_singleton.mp hmem]
      · cases hmem
    · rw [List.mem_singleton.mp hmem]

/-- Calls one after the other. -/
theorem Calm.requests (h : s.Calm limits) {calls : List (Nat × Request)}
    (hcalls : ∀ call ∈ calls, call.1 < s.callers.length) :
    ∃ s', s.Leads s' ∧ s'.Calm limits ∧ s'.client = (applyAll s.client calls).2 ∧
      s'.log = s.log ++ (applyAll s.client calls).1 := by
  induction calls generalizing s with
  | nil => exact ⟨s, leads_refl s, h, rfl, (List.append_nil _).symm⟩
  | cons call rest ih =>
    obtain ⟨i, request⟩ := call
    obtain ⟨hi, hrest⟩ := List.forall_mem_cons.mp hcalls
    obtain ⟨next, hnext, hcalm, hcallers, hclient, hlog⟩ := h.request hi request
    obtain ⟨s', hleads, hcalm', hclient', hlog'⟩ := ih hcalm (hcallers ▸ hrest)
    rw [hclient] at hclient' hlog'
    refine ⟨s', hnext.trans hleads, hcalm', hclient', ?_⟩
    rw [hlog', hlog, List.append_assoc]
    rfl

/-- Whatever a client makes of calls one after the other, its callers and threads can do. -/
theorem exists_run_applyAll {config : Config} {transport : τ} {route : String → Nat}
    {draws : Draws} {client : Client τ}
    (hbuild : config.buildWith transport route draws = .ok client) (callers : Nat)
    {calls : List (Nat × Request)} (hcalls : ∀ call ∈ calls, call.1 < callers) :
    ∃ moves s', (start client callers).run? moves = some s' ∧
      s'.client = (applyAll client calls).2 ∧ s'.log = (applyAll client calls).1 := by
  have hlt : ∀ call ∈ calls, call.1 < (start client callers).callers.length := by
    simpa [start] using hcalls
  obtain ⟨s', ⟨moves, hrun⟩, -, hclient, hlog⟩ := (calm_start hbuild callers).requests hlt
  exact ⟨moves, s', hrun, hclient, by simpa [start] using hlog⟩

end System

end DogStatsD
