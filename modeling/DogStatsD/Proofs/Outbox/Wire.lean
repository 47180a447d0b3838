import DogStatsD.Proofs.Outbox.Drain
import DogStatsD.Proofs.Packer.Exchange
import DogStatsD.Transport.Scripted

/-!
# Nothing Lost on the Wire

The payloads delivered and those waiting make up one sequence. As long as nothing is lost, taking a
payload over puts it at the end, and delivering changes nothing at all, at whatever moment the
payloads are delivered.

* `Outbox.lost`, `Outbox.wire`: the number of payloads lost, and the texts delivered or waiting;
* `Outbox.Passes`: a part of a run puts some texts at the end, unless it counts a loss;
* `Outbox.passes_takeOver`: taking over puts the text of the payload there;
* `Outbox.passes_deliverNext`, `Outbox.passes_catchUp`, `Outbox.passes_flush`: deliveries put
  nothing there.
-/

namespace DogStatsD

namespace Scripted

/-- A write that goes well is accepted last. -/
theorem accepted_push_true (t : Scripted) (text : String) :
    accepted { t with writes := t.writes.push (text, true) } = t.accepted ++ [text] := by
  simp [accepted]

end Scripted

namespace Outbox

/-- The number of payloads lost for whatever reason. -/
def lost {τ : Type} (o : Outbox τ) : Nat :=
  o.ledger.overflowed.payloads + o.ledger.failed.payloads

/-- The texts of the payloads that commands ask to write. -/
def textsOf (commands : List Command) : List String :=
  ((waiting commands).filter fun payload => !payload.isEmpty).map Payload.text

/-- The texts delivered and those waiting. -/
def wire (o : Outbox Scripted) : List String :=
  o.transport.accepted ++ textsOf o.queue

@[simp]
theorem textsOf_nil : textsOf [] = [] := rfl

@[simp]
theorem textsOf_append (front back : List Command) :
    textsOf (front ++ back) = textsOf front ++ textsOf back := by
  simp [textsOf]

theorem textsOf_cons (command : Command) (rest : List Command) :
    textsOf (command :: rest) = textsOf [command] ++ textsOf rest :=
  textsOf_append [command] rest

theorem textsOf_payload {payload : Payload} (h : payload.lines ≠ 0) :
    textsOf [.payload payload] = [payload.text] := by
  simp [textsOf, Payload.isEmpty, h]

/-! ## Passing texts on -/

/-- A part of a run leaves the outbox clean and puts some texts at the end of the wire, unless it
counts a loss. -/
structure Passes (limits : Limits) (o : Outbox Scripted) (texts : List String)
    (later : Outbox Scripted) : Prop where
  clean : later.Clean limits
  lost_le : o.lost ≤ later.lost
  /-- Without a loss, the texts are at the end. -/
  wire_eq : later.lost = o.lost → later.wire = o.wire ++ texts

variable {limits : Limits} {o later last : Outbox Scripted} {texts more : List String}

theorem passes_refl (h : o.Clean limits) : o.Passes limits [] o :=
  ⟨h, Nat.le_refl _, fun _ => (List.append_nil _).symm⟩

theorem Passes.trans (h : o.Passes limits texts later) (hlast : later.Passes limits more last) :
    o.Passes limits (texts ++ more) last := by
  have hle := h.lost_le
  have hle' := hlast.lost_le
  refine ⟨hlast.clean, hle.trans hle', ?_⟩
  intro heq
  -- Without a loss in the whole, there was none in either part.
  rw [hlast.wire_eq (by omega), h.wire_eq (by omega), List.append_assoc]

/-- A payload that finds no room is lost, and that is counted. -/
theorem lost_takeOver_of_not_hasRoom {payload : Payload} (h : o.borrow.2.hasRoom = false) :
    (o.takeOver payload).lost = o.lost + 1 := by
  rw [takeOver, post, h]
  show o.ledger.overflowed.payloads + 1 + o.ledger.failed.payloads = _
  rw [lost]
  omega

/-- A payload that is taken over is put at the end. -/
theorem passes_takeOver (h : o.Clean limits) {payload : Payload} (hlimits : payload.limits = limits)
    (hlines : payload.lines ≠ 0) : o.Passes limits [payload.text] (o.takeOver payload) := by
  have hclean := h.takeOver hlimits
  cases hroom : o.borrow.2.hasRoom with
  | false =>
    have hlost : (o.takeOver payload).lost = o.lost + 1 := lost_takeOver_of_not_hasRoom hroom
    exact ⟨hclean, by omega, fun heq => by omega⟩
  | true =>
    -- Borrowing the payload given in exchange touches neither the queue nor the transport.
    rw [takeOver, post, if_pos hroom] at hclean ⊢
    refine ⟨hclean, Nat.le_refl _, ?_⟩
    intro _
    show o.transport.accepted ++ textsOf (o.queue ++ [.payload payload]) = _
    rw [textsOf_append, textsOf_payload hlines, wire, List.append_assoc]

/-! ## Delivering -/

/-- Carrying out the command that stands first in the queue puts nothing at the end. -/
theorem passes_perform {command : Command} {rest : List Command} (h : o.Clean limits)
    (hqueue : o.queue = command :: rest) :
    o.Passes limits [] (({ o with queue := rest } : Outbox Scripted).perform command) := by
  have hclean := h.perform hqueue
  cases command with
  | barrier caller =>
    refine ⟨hclean, Nat.le_refl _, ?_⟩
    intro _
    rw [wire, wire, hqueue, List.append_nil]
    rfl
  | payload payload =>
    by_cases hempty : payload.lines = 0
    · -- An empty payload is not written, and no part of the wire either.
      have hnone : textsOf (.payload payload :: rest) = textsOf rest := by
        simp [textsOf, Payload.isEmpty, hempty]
      have hskip : ({ o with queue := rest } : Outbox Scripted).perform (.payload payload) =
          { o with queue := rest, pool := o.pool.put payload } := by
        simp [perform, deliver, Payload.isEmpty, hempty]
      rw [hskip] at hclean ⊢
      refine ⟨hclean, Nat.le_refl _, ?_⟩
      intro _
      rw [wire, wire, hqueue, hnone, List.append_nil]
    · have hfirst : textsOf (.payload payload :: rest) = payload.text :: textsOf rest := by
        rw [textsOf_cons, textsOf_payload hempty]
        rfl
      by_cases hfails : o.transport.failsWrite o.transport.writes.size = true
      · -- The write fails, and the loss is counted.
        have hfail : (({ o with queue := rest } : Outbox Scripted).perform
            (.payload payload)).lost = o.lost + 1 := by
          simp [perform, deliver, Payload.isEmpty, hempty, Transport.write, Scripted.write, hfails,
            lost, Tally.count]
          omega
        exact ⟨hclean, by omega, fun heq => by omega⟩
      · -- The text moves from the front of the queue to the end of what was accepted.
        have hwrite : ({ o with queue := rest } : Outbox Scripted).perform (.payload payload) =
            { o with
              queue := rest
              transport :=
                { o.transport with writes := o.transport.writes.push (payload.text, true) }
              pool := o.pool.put payload
              ledger := { o.ledger with sent := o.ledger.sent.count payload.size } } := by
          simp [perform, deliver, Payload.isEmpty, hempty, Transport.write, Scripted.write, hfails]
        rw [hwrite] at hclean ⊢
        refine ⟨hclean, Nat.le_refl _, ?_⟩
        intro _
        rw [wire, wire, hqueue, hfirst, Scripted.accepted_push_true]
        simp

/-- The thread of the outbox puts nothing at the end. -/
theorem passes_deliverNext (h : o.Clean limits) : o.Passes limits [] o.deliverNext := by
  cases hqueue : o.queue with
  | nil =>
    rw [deliverNext_of_queue_eq_nil hqueue]
    exact passes_refl h
  | cons command rest =>
    rw [deliverNext_of_queue_eq_cons hqueue]
    exact passes_perform h hqueue

/-- Working off the queue puts nothing at the end. -/
theorem passes_drain (h : o.Clean limits) : o.Passes limits [] o.drain :=
  drain_induction (motive := fun later => o.Passes limits [] later)
    (fun _ _ _ hqueue hpass => hpass.trans (passes_perform hpass.clean hqueue)) (passes_refl h)

/-- The thread of the outbox may work off the queue at any moment. -/
theorem passes_catchUp (h : o.Clean limits) : o.Passes limits [] o.catchUp := by
  unfold catchUp
  split
  · exact passes_drain h
  · exact passes_refl h

/-- Waiting until everything is written puts nothing at the end either. -/
theorem passes_flush (h : o.Clean limits) : o.Passes limits [] o.flush := by
  rw [flush_eq_drain]
  exact passes_drain h

end Outbox

end DogStatsD
