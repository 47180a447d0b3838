import DogStatsD.Line

/-!
# Framing of Lines

Lines follow each other on the wire without anything between them, so each brings the newline that
ends it.

* `ended_ofSample`, `ended_ofBatch`: every line ends in a newline.
-/

namespace DogStatsD.Line

/-- A text ends in a newline. -/
def Ended (text : String) : Prop :=
  ∃ body, text = body ++ "\n"

/-- A text that ends in a newline is not empty. -/
theorem Ended.ne_empty {text : String} (h : Ended text) : text ≠ "" := by
  obtain ⟨body, rfl⟩ := h
  simp [String.append_eq_empty_iff]

/-- What is put in front of a text does not change how it ends. -/
theorem Ended.append_left {text : String} (h : Ended text) (front : String) :
    Ended (front ++ text) := by
  obtain ⟨body, rfl⟩ := h
  exact ⟨front ++ body, by rw [String.append_assoc]⟩

/-- The trailer of a metric line ends the line. -/
theorem ended_trailer (o : Options) (kind : Kind) (tags : List String) (rate : Float)
    (cardinality : Option Cardinality) (timestamp : Option Nat) :
    Ended (trailer o kind tags rate cardinality timestamp) :=
  ⟨_, rfl⟩

/-- The line of a sample ends in a newline. -/
theorem ended_ofSample (o : Options) (s : Sample) : Ended (ofSample o s) := by
  cases s with
  | metric m => exact (ended_trailer ..).append_left _
  | event e => exact ⟨_, rfl⟩
  | serviceCheck c => exact ⟨_, rfl⟩

/-- The line of a batch ends in a newline. -/
theorem ended_ofBatch (o : Options) (b : Batch) : Ended (ofBatch o b) :=
  (ended_trailer ..).append_left _

end DogStatsD.Line
