import DogStatsD.Proofs.Outbox.Wire
import Mathlib.Algebra.BigOperators.Group.List.Basic
import Mathlib.Algebra.GroupWithZero.Nat

/-!
# Fates of Payloads

Each payload given to an outbox either finds room in its queue or is refused, and each one that
found room is taken out again, written if it is not empty, and given back to the pool. An outbox
keeps counters only; the fates of its payloads go along with it as a history.

* `Fates`, `Fates.post`, `Fates.perform`: the history, and what posting a payload and carrying out a
  command add to it;
* `Fates.Tells`: the counters and the queue of an outbox are those of a history;
* `Fates.Tells.accept`, `Fates.Tells.refuse`, `Fates.Tells.perform`: payloads that come in and
  commands that are carried out keep it so;
* `Fates.drain_induction`: what every delivery keeps is kept by working off the queue.
-/

namespace DogStatsD

/-- The tally of payloads with the given texts. -/
def Tally.ofTexts (texts : List String) : Tally :=
  ⟨texts.length, (texts.map String.utf8ByteSize).sum⟩

theorem Tally.count_ofTexts (texts : List String) (text : String) :
    (ofTexts texts).count text.utf8ByteSize = ofTexts (texts ++ [text]) := by
  simp [ofTexts, count]

/-- What has become of the payloads given to an outbox. -/
structure Fates where
  /-- Those that found room in the queue, the oldest first. -/
  admitted : List Payload := []
  /-- Those that found the queue full. -/
  refused : List Payload := []
  /-- Those given to the transport, and whether it accepted them. -/
  written : List (Payload × Bool) := []
  /-- Those given back to the pool. -/
  returned : List Payload := []

namespace Fates

/-- The payloads that the transport accepted. -/
def sent (f : Fates) : List Payload :=
  (f.written.filter (·.2)).map Prod.fst

/-- The payloads that the transport failed to write. -/
def failed (f : Fates) : List Payload :=
  (f.written.filter (!·.2)).map Prod.fst

variable {τ : Type}

/-- Post a payload to an outbox. -/
def post (f : Fates) (o : Outbox τ) (payload : Payload) : Fates :=
  if o.hasRoom then { f with admitted := f.admitted ++ [payload] }
  else { f with refused := f.refused ++ [payload], returned := f.returned ++ [payload] }

variable [Transport τ]

/-- Let an outbox carry out a command. -/
def perform (f : Fates) (o : Outbox τ) : Command → Fates
  | .barrier _ => f
  | .payload payload =>
    let f := { f with returned := f.returned ++ [payload] }
    if payload.isEmpty then f
    else
      let accepted := (Transport.write o.transport payload.text).1.isOk
      { f with written := f.written ++ [(payload, accepted)] }

/-- Let an outbox carry out commands one after the other. -/
def performAll (f : Fates) (o : Outbox τ) : List Command → Fates
  | [] => f
  | command :: rest => (f.perform o command).performAll (o.perform command) rest

end Fates

namespace Fates

open Outbox

variable {τ : Type}

/-- Whether a payload holds a line. -/
def holdsLine (payload : Payload) : Bool :=
  !payload.isEmpty

/-- The counters and the queue of an outbox are those of a history. -/
structure Tells (f : Fates) (o : Outbox τ) : Prop where
  sent_eq : o.ledger.sent = .ofTexts (f.sent.map Payload.text)
  failed_eq : o.ledger.failed = .ofTexts (f.failed.map Payload.text)
  overflowed_eq : o.ledger.overflowed = .ofTexts (f.refused.map Payload.text)
  /-- What found room and holds a line was written, in the same order, or is still waiting. -/
  admitted_eq : f.admitted.filter holdsLine =
    f.written.map Prod.fst ++ (waiting o.queue).filter holdsLine
  /-- Each payload was given back once, or is still waiting. -/
  returned_perm : (f.returned ++ waiting o.queue).Perm (f.admitted ++ f.refused)

variable {f : Fates} {o : Outbox τ}

/-- A payload that is admitted joins those waiting, at the end. -/
theorem Tells.accept (h : f.Tells o) (payload : Payload) :
    ({ f with admitted := f.admitted ++ [payload] } : Fates).Tells
      { o with queue := o.queue ++ [.payload payload] } := by
  refine ⟨h.sent_eq, h.failed_eq, h.overflowed_eq, ?_, ?_⟩
  · simp only [waiting_append, List.filter_append, h.admitted_eq, List.append_assoc]
    rfl
  · simp only [waiting_append]
    rw [← List.append_assoc]
    refine (h.returned_perm.append_right _).trans ?_
    rw [List.append_assoc, List.append_assoc]
    exact List.perm_append_comm.append_left f.admitted

/-- A payload that is refused is counted, and goes back at once. -/
theorem Tells.refuse (h : f.Tells o) (payload : Payload) :
    ({ f with
        refused := f.refused ++ [payload], returned := f.returned ++ [payload] } : Fates).Tells
      { o with
        pool := o.pool.put payload
        ledger := { o.ledger with overflowed := o.ledger.overflowed.count payload.size } } := by
  refine ⟨h.sent_eq, h.failed_eq, ?_, h.admitted_eq, ?_⟩
  · simp only [List.map_append, h.overflowed_eq]
    exact Tally.count_ofTexts _ payload.text
  · rw [← List.append_assoc, List.append_assoc]
    refine (List.perm_append_comm.append_left f.returned).trans ?_
    rw [← List.append_assoc]
    exact h.returned_perm.append_right _

/-- Posting a payload keeps the history. -/
theorem Tells.post (h : f.Tells o) (payload : Payload) :
    (f.post o payload).Tells (o.post payload) := by
  unfold Fates.post Outbox.post
  split
  · exact h.accept payload
  · exact h.refuse payload

/-- A barrier is no payload. -/
theorem Tells.raise (h : f.Tells o) (caller : Nat) : f.Tells (o.raise caller) := by
  have hwaiting : waiting (o.raise caller).queue = waiting o.queue := by
    simp [Outbox.raise]
  refine ⟨h.sent_eq, h.failed_eq, h.overflowed_eq, ?_, ?_⟩
  · rw [hwaiting]
    exact h.admitted_eq
  · rw [hwaiting]
    exact h.returned_perm

variable [Transport τ]

/-- Carrying out the command that stands first in the queue keeps the history. -/
theorem Tells.perform (h : f.Tells o) {command : Command} {rest : List Command}
    (hqueue : o.queue = command :: rest) :
    (f.perform o command).Tells (({ o with queue := rest } : Outbox τ).perform command) := by
  have hadmitted := h.admitted_eq
  have hreturned := h.returned_perm
  rw [hqueue] at hadmitted hreturned
  cases command with
  | barrier caller => exact ⟨h.sent_eq, h.failed_eq, h.overflowed_eq, hadmitted, hreturned⟩
  | payload payload =>
    have hback : (f.returned ++ [payload] ++ waiting rest).Perm (f.admitted ++ f.refused) := by
      rw [List.append_assoc]
      exact hreturned
    cases hempty : payload.isEmpty with
    | true =>
      simp only [Fates.perform, Outbox.perform, hempty, if_true, deliver_of_isEmpty hempty]
      refine ⟨h.sent_eq, h.failed_eq, h.overflowed_eq, ?_, hback⟩
      rw [hadmitted, waiting_cons_payload, List.filter_cons_of_neg (by simp [holdsLine, hempty])]
    | false =>
      simp only [Fates.perform, Outbox.perform, hempty, Bool.false_eq_true, if_false,
        deliver_of_not_isEmpty hempty]
      have hfirst : f.admitted.filter holdsLine =
          (f.written.map Prod.fst ++ [payload]) ++ (waiting rest).filter holdsLine := by
        rw [hadmitted, waiting_cons_payload, List.filter_cons_of_pos (by simp [holdsLine, hempty]),
          List.append_assoc]
        rfl
      -- The outcome of the write decides which counter goes up.
      cases hok : (Transport.write o.transport payload.text).1.isOk with
      | true =>
        refine ⟨?_, ?_, h.overflowed_eq, ?_, hback⟩
        · simp only [sent, if_true, List.filter_append, List.map_append, h.sent_eq]
          exact Tally.count_ofTexts _ payload.text
        · simpa [failed] using h.failed_eq
        · simpa using hfirst
      | false =>
        refine ⟨?_, ?_, h.overflowed_eq, ?_, hback⟩
        · simpa [sent] using h.sent_eq
        · simp only [failed, Bool.false_eq_true, if_false, List.filter_append, List.map_append,
            h.failed_eq]
          exact Tally.count_ofTexts _ payload.text
        · simpa using hfirst

/-- Carrying out a command neither admits nor refuses a payload. -/
theorem perform_sorted (f : Fates) (o : Outbox τ) (command : Command) :
    (f.perform o command).admitted = f.admitted ∧ (f.perform o command).refused = f.refused := by
  cases command with
  | barrier caller => exact ⟨rfl, rfl⟩
  | payload payload => cases hempty : payload.isEmpty <;> simp [Fates.perform, hempty]

/-- Delivering neither admits nor refuses a payload. -/
theorem performAll_sorted (f : Fates) (o : Outbox τ) (commands : List Command) :
    (f.performAll o commands).admitted = f.admitted ∧
      (f.performAll o commands).refused = f.refused := by
  induction commands generalizing f o with
  | nil => exact ⟨rfl, rfl⟩
  | cons command rest ih =>
    obtain ⟨hfirst, hfirst'⟩ := f.perform_sorted o command
    obtain ⟨hadmitted, hrefused⟩ := ih (f.perform o command) (o.perform command)
    exact ⟨hadmitted.trans hfirst, hrefused.trans hfirst'⟩

/-- Carrying out a command adds the same to a history whatever waits in the queue. -/
theorem perform_queue (f : Fates) (o : Outbox τ) (queue : List Command) (command : Command) :
    f.perform { o with queue } command = f.perform o command := by
  cases command <;> rfl

/-- Carrying out commands adds the same to a history whatever waits in the queue. -/
theorem performAll_queue (f : Fates) (o : Outbox τ) (queue commands : List Command) :
    f.performAll { o with queue } commands = f.performAll o commands := by
  induction commands generalizing f o with
  | nil => rfl
  | cons command rest ih =>
    rw [performAll, performAll, perform_queue, Outbox.perform_queue, ih]

/-- What every delivery keeps is kept by working off the queue. -/
theorem drain_induction {motive : Fates → Outbox τ → Prop}
    (step : ∀ (f : Fates) (o : Outbox τ) (command : Command) (rest : List Command),
      o.queue = command :: rest → motive f o →
        motive (f.perform o command) (({ o with queue := rest } : Outbox τ).perform command))
    (h : motive f o) : motive (f.performAll o o.queue) o.drain := by
  generalize hqueue : o.queue = commands
  induction commands generalizing f o with
  | nil =>
    rw [drain_of_queue_eq_nil hqueue]
    exact h
  | cons command rest ih =>
    have hnext := ih (step f o command rest hqueue h) (Outbox.queue_perform _ command)
    rw [Outbox.perform_queue o rest, performAll_queue] at hnext
    rw [drain_of_queue_eq_cons hqueue, Outbox.perform_queue o rest]
    exact hnext

end Fates

end DogStatsD
