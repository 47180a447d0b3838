import DogStatsD.Client.Config
import DogStatsD.Proofs.Pipeline.Shards

/-!
# New Clients

What `Config.buildWith` makes of a valid configuration: nothing is written yet, and only empty
payloads are about.

* `Config.eq_of_buildWith`: a configuration that builds a client is valid, and the transport has
  taken the timeout;
* `Config.pipeline_eq`: the pipeline of a new client in full.
-/

namespace DogStatsD

/-- A valid configuration has workers. -/
theorem workers_pos {config : Config} (h : config.validate = .ok ()) : 0 < config.workers := by
  rw [Nat.pos_iff_ne_zero]
  intro hzero
  unfold Config.validate at h
  split_ifs at h

namespace Config

variable {τ : Type} (c : Config)

/-- A new pipeline has shards that hold nothing, and the thread of its outbox runs. -/
theorem pipeline_eq (transport : τ) (route : String → Nat) (draws : Draws) :
    ∃ pool : Pool, pool.Clean c.limits ∧ c.pipeline transport route draws =
      { route
        shards :=
          List.replicate c.workers
            { packer := { options := c.options, current := { limits := c.limits } } }
        intake := if c.channelMode then .channels c.channels else .direct
        outbox := { capacity := c.queueSize, running := true, transport, pool }
        draws } := by
  let outbox : Outbox τ := { capacity := c.queueSize, transport, pool := .new c.poolSize c.limits }
  have hclean : outbox.Clean c.limits := ⟨Pool.clean_new _ _, List.forall_mem_nil _⟩
  obtain ⟨hshards, pool, houtbox, hpool⟩ := Pipeline.newShards_eq c.options hclean c.workers
  refine ⟨pool, hpool, ?_⟩
  unfold Config.pipeline Pipeline.new
  dsimp only
  rw [show Pipeline.newShards c.options _ c.workers = (_, _) from Prod.ext hshards houtbox]
  cases c.channelMode <;> rfl

variable [Transport τ] {c}

/-- A configuration that builds a client is valid, and the transport has taken the timeout. -/
theorem eq_of_buildWith {transport : τ} {route : String → Nat} {draws : Draws} {client : Client τ}
    (h : c.buildWith transport route draws = .ok client) :
    c.validate = .ok () ∧ ∃ later,
      Transport.setWriteTimeout transport c.writeTimeout = (.ok (), later) ∧
      client = { aggregator := c.aggregator, pipeline := c.pipeline later route draws } := by
  unfold buildWith at h
  split at h
  · cases h
  next hvalid =>
    split at h
    · cases h
    next later htimeout => exact ⟨hvalid, later, htimeout, (Except.ok.inj h).symm⟩

end Config

end DogStatsD
