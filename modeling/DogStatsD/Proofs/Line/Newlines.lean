import DogStatsD.Proofs.Line.Bytes
import DogStatsD.Proofs.Line.Parts
import Mathlib.Algebra.GroupWithZero.Nat

/-!
# Newlines of Lines

A newline ends a line, so none may stand inside of one. Whatever an application puts into the
fields of a sample, the newlines are left out of them or escaped; only the namespace, the metric
name and the container id go on a line as they are.

* `newlineBytes_eq_count`: the newline bytes of a text are its newlines, whatever else is in it;
* `Line.Framed`: a text whose only newline is its last character;
* `Line.framed_ofEvent`, `Line.framed_ofServiceCheck`: every notice is such a line;
* `Line.ofMetric_eq_framed`, `Line.ofBatch_eq_framed`: so is what stands behind the namespace of a
  metric line.
-/

namespace DogStatsD

/-! ## Bytes -/

/-- The number of newline bytes of a text. -/
def newlineBytes (text : String) : Nat :=
  text.toUTF8.data.toList.count 10

/-- The bytes of a character beyond the first 128 lie beyond the first 128, too. -/
theorem high_of_mem_utf8EncodeChar {c : Char} (hc : ¬c.val.toNat ≤ 127) {b : UInt8}
    (hb : b ∈ String.utf8EncodeChar c) : 128 ≤ b.toNat := by
  have hbyte {n : Nat} (hlow : 128 ≤ n) (hhigh : n < 256) : 128 ≤ (UInt8.ofNat n).toNat := by
    rw [UInt8.toNat_ofNat_of_lt' hhigh]
    exact hlow
  unfold String.utf8EncodeChar at hb
  dsimp only at hb
  rw [if_neg hc] at hb
  -- Two, three or four bytes.
  split at hb
  · simp only [List.mem_cons, List.not_mem_nil, or_false] at hb
    rcases hb with rfl | rfl <;> exact hbyte (by omega) (by omega)
  split at hb
  · simp only [List.mem_cons, List.not_mem_nil, or_false] at hb
    rcases hb with rfl | rfl | rfl <;> exact hbyte (by omega) (by omega)
  · simp only [List.mem_cons, List.not_mem_nil, or_false] at hb
    rcases hb with rfl | rfl | rfl | rfl <;> exact hbyte (by omega) (by omega)

/-- Only the newline is written with a newline byte, and with one. -/
theorem count_utf8EncodeChar (c : Char) :
    (String.utf8EncodeChar c).count 10 = if c = '\n' then 1 else 0 := by
  have hnewline : c = '\n' ↔ c.val.toNat = 10 := by
    rw [Char.ext_iff, ← UInt32.toNat_inj]
    rfl
  by_cases hascii : c.val.toNat ≤ 127
  · -- Up to here characters are their own bytes.
    have hbyte : UInt8.ofNat c.val.toNat = 10 ↔ c = '\n' := by
      rw [hnewline, ← UInt8.toNat_inj, UInt8.toNat_ofNat_of_lt' (by omega : _ < 256)]
      rfl
    have hself : String.utf8EncodeChar c = [UInt8.ofNat c.val.toNat] := if_pos hascii
    rw [hself, List.count_singleton]
    simp only [beq_iff_eq, hbyte]
  · have hne : c ≠ '\n' := by
      intro heq
      rw [hnewline] at heq
      omega
    rw [if_neg hne, List.count_eq_zero]
    intro hmem
    exact absurd (high_of_mem_utf8EncodeChar hascii hmem) (by decide)

/-- The newline bytes of a text are its newlines. -/
theorem newlineBytes_eq_count (text : String) : newlineBytes text = text.toList.count '\n' := by
  have hbytes : text.toUTF8.data.toList = text.toList.flatMap String.utf8EncodeChar :=
    bytesOf_eq_flatMap text
  rw [newlineBytes, hbytes]
  induction text.toList with
  | nil => rfl
  | cons c rest ih =>
    rw [List.flatMap_cons, List.count_append, ih, count_utf8EncodeChar, List.count_cons, add_comm]
    simp

/-- The newlines in two texts are those of the one and those of the other. -/
theorem newlineBytes_append (front back : String) :
    newlineBytes (front ++ back) = newlineBytes front + newlineBytes back := by
  simp only [newlineBytes_eq_count, String.toList_append, List.count_append]

/-- The newlines in texts put together are those in each, added up. -/
theorem newlineBytes_join (parts : List String) :
    newlineBytes (String.join parts) = (parts.map newlineBytes).sum := by
  induction parts with
  | nil => rfl
  | cons part rest ih =>
    rw [String.join_cons, newlineBytes_append, ih, List.map_cons, List.sum_cons]

/-- A text without newlines has no newline bytes. -/
theorem newlineBytes_eq_zero {text : String} : newlineBytes text = 0 ↔ Avoids ['\n'] text := by
  rw [newlineBytes_eq_count, List.count_eq_zero]
  simp [Avoids]

/-! ## Parts of lines -/

/-- Two texts together avoid some characters just if both of them do. -/
@[simp]
theorem avoids_append {marks : List Char} {front back : String} :
    Avoids marks (front ++ back) ↔ Avoids marks front ∧ Avoids marks back := by
  simp only [Avoids, String.toList_append, List.mem_append, not_or, forall_and]

/-- Leaving newlines out leaves none. -/
theorem avoids_dropNewlines (text : String) : Avoids ['\n'] (Line.dropNewlines text) :=
  Avoids.dropNewlines fun _ hc => absurd hc List.not_mem_nil

namespace Line

/-- Escaping leaves no newline. -/
theorem not_mem_escapeChars (text : List Char) : '\n' ∉ escapeChars text := by
  induction text with
  | nil => exact List.not_mem_nil
  | cons c rest ih =>
    unfold escapeChars
    split
    · simpa using ih
    · next hne => simpa [Ne.symm hne] using ih

/-- An escaped text holds no newline. -/
theorem avoids_escapeNewlines (text : String) : Avoids ['\n'] (escapeNewlines text) := by
  simpa [Avoids, escapeNewlines] using not_mem_escapeChars text.toList

/-- The newlines of a message are escaped last, so none is left. -/
theorem avoids_messageText (text : String) : Avoids ['\n'] (messageText text) :=
  avoids_escapeNewlines _

/-- A field avoids what its mark and its text avoid. -/
theorem avoids_field {marks : List Char} {mark : String} {value : Option String}
    (hmark : Avoids marks mark) (hvalue : ∀ text ∈ value, Avoids marks text) :
    Avoids marks (field mark value) := by
  cases value with
  | none => exact fun _ _ => List.not_mem_nil
  | some text => exact avoids_append.mpr ⟨hmark, hvalue text rfl⟩

/-- A field whose text is made from what was given holds a newline only if that can be. -/
theorem avoids_field_map {α : Type} {mark : String} {value : Option α} {text : α → String}
    (hmark : Avoids ['\n'] mark) (htext : ∀ a, Avoids ['\n'] (text a)) :
    Avoids ['\n'] (field mark (value.map text)) := by
  refine avoids_field hmark fun _ hmem => ?_
  obtain ⟨a, -, rfl⟩ := Option.map_eq_some_iff.mp hmem
  exact htext a

theorem avoids_ofNat (n : Nat) : Avoids ['\n'] (Decimal.ofNat n) :=
  (avoids_of_allNumber (Decimal.allNumber_digitChars n)).mono (by decide)

/-- Texts that are put together with a character between them avoid what both avoid. -/
theorem avoids_intercalate {marks : List Char} {separator : String} {between : Char}
    (hseparator : separator.toList = [between]) (hbetween : between ∉ marks) {texts : List String}
    (htexts : ∀ text ∈ texts, Avoids marks text) : Avoids marks (separator.intercalate texts) := by
  intro c hc
  rw [String.toList_intercalate, hseparator]
  exact not_mem_intercalate (ne_of_mem_of_not_mem hc hbetween)
    (List.forall_mem_map.mpr fun text htext => htexts text htext c hc)

/-- The field of tags holds no newline, whatever the tags are. -/
theorem avoids_tagField (o : Options) (tags : List String) : Avoids ['\n'] (o.tagField tags) := by
  unfold Options.tagField
  split
  · decide
  · refine avoids_append.mpr ⟨by decide, avoids_intercalate rfl (by decide) fun text htext => ?_⟩
    obtain ⟨tag, -, rfl⟩ := List.mem_map.mp htext
    exact avoids_dropNewlines tag

/-! ## Lines -/

/-- A text whose only newline is its last character. -/
def Framed (text : String) : Prop :=
  ∃ body, text = body ++ "\n" ∧ Avoids ['\n'] body

/-- A framed line has one newline, which is its last byte. -/
theorem Framed.newlineBytes_eq {text : String} (h : Framed text) : newlineBytes text = 1 := by
  obtain ⟨body, rfl, hbody⟩ := h
  rw [newlineBytes_append, newlineBytes_eq_zero.mpr hbody]
  rfl

/-- What is put in front of a line without newlines does not add one. -/
theorem Framed.append_left {front text : String} (hfront : Avoids ['\n'] front) (h : Framed text) :
    Framed (front ++ text) := by
  obtain ⟨body, rfl, hbody⟩ := h
  exact ⟨front ++ body, String.append_assoc.symm, avoids_append.mpr ⟨hfront, hbody⟩⟩

section

variable {o : Options} (hid : ∀ id ∈ o.containerId, Avoids ['\n'] id)
include hid

theorem avoids_containerField : Avoids ['\n'] o.containerField :=
  avoids_field (by decide) hid

/-- The line of an event is framed, whatever its title and text. -/
theorem framed_ofEvent (e : Event) : Framed (ofEvent o e) := by
  refine ⟨_, rfl, ?_⟩
  simp only [eventHead, avoids_append, and_assoc]
  refine ⟨by decide, avoids_ofNat _, by decide, avoids_ofNat _, by decide,
    avoids_escapeNewlines _, by decide, avoids_escapeNewlines _, ?_, ?_, ?_, ?_, ?_, ?_,
    avoids_tagField o e.tags, avoids_containerField hid⟩
  -- The fields between the text and the tags in turn.
  · exact avoids_field_map (by decide) avoids_ofNat
  · exact avoids_field_map (by decide) avoids_dropNewlines
  · exact avoids_field_map (by decide) avoids_dropNewlines
  · exact avoids_field_map (by decide) fun priority => by cases priority <;> decide
  · exact avoids_field_map (by decide) avoids_dropNewlines
  · exact avoids_field_map (by decide) fun alert => by cases alert <;> decide

/-- The line of a service check is framed, whatever its message. -/
theorem framed_ofServiceCheck (c : ServiceCheck) : Framed (ofServiceCheck o c) := by
  have hstatus : Avoids ['\n'] c.status.code := by
    cases c.status <;> decide
  refine ⟨_, rfl, ?_⟩
  simp only [avoids_append, and_assoc]
  refine ⟨by decide, avoids_dropNewlines _, by decide, hstatus, ?_, ?_, avoids_tagField o c.tags,
    ?_, avoids_containerField hid⟩
  · exact avoids_field_map (by decide) avoids_ofNat
  · exact avoids_field_map (by decide) avoids_dropNewlines
  · exact avoids_field_map (by decide) avoids_messageText

/-- What stands behind the values of a metric is framed, whatever its tags. -/
theorem framed_trailer (kind : Kind) (tags : List String) (rate : Float)
    (cardinality : Option Cardinality) (timestamp : Option Nat) :
    Framed (trailer o kind tags rate cardinality timestamp) := by
  have hkind : Avoids ['\n'] kind.mark := by
    cases kind <;> decide
  have hrate : Avoids ['\n'] (rateField rate) := by
    unfold rateField
    split
    · exact avoids_append.mpr ⟨by decide, (avoids_ofFloat rate).mono (by decide)⟩
    · decide
  have hcardinality : Avoids ['\n'] (o.cardinalityField cardinality) :=
    avoids_field_map (by decide) fun own => by cases own <;> decide
  refine ⟨_, rfl, ?_⟩
  simp only [avoids_append, and_assoc]
  exact ⟨by decide, hkind, hrate, avoids_tagField o tags, avoids_containerField hid,
    avoids_field_map (by decide) avoids_ofNat, hcardinality⟩

/-- Behind the namespace, a metric line is framed if its name and the texts of its values hold no
newline. -/
theorem Parts.line_eq_framed {p : Parts} (hname : Avoids ['\n'] p.name)
    (htexts : ∀ text ∈ p.texts, Avoids ['\n'] text) :
    ∃ rest, p.line o = o.metricNamespace.getD "" ++ rest ∧ Framed rest := by
  have hvalues : Avoids ['\n'] (":".intercalate p.texts) :=
    avoids_intercalate rfl (by decide) htexts
  refine ⟨p.name ++ ":" ++ ":".intercalate p.texts ++
    trailer o p.kind p.tags p.rate p.cardinality p.timestamp, ?_, ?_⟩
  · simp only [line, header, String.append_assoc]
  · refine (framed_trailer hid ..).append_left ?_
    exact avoids_append.mpr ⟨avoids_append.mpr ⟨hname, by decide⟩, hvalues⟩

/-- The line of a metric is the namespace, which is written as it is, and something framed. -/
theorem ofMetric_eq_framed {m : Metric} (hname : Avoids ['\n'] m.name) :
    ∃ rest, ofMetric o m = o.metricNamespace.getD "" ++ rest ∧ Framed rest := by
  rw [← Parts.line_ofMetric]
  refine Parts.line_eq_framed hid hname fun text htext => ?_
  obtain rfl := List.mem_singleton.mp htext
  -- A set member is the only value that is text, and its newlines are left out.
  cases hvalue : m.value with
  | set member => exact avoids_dropNewlines member
  | count n => exact (avoids_ofInt _).mono (by decide)
  | gauge x | histogram x | distribution x | timing x => exact (avoids_ofFloat x).mono (by decide)

/-- The line of a batch is the namespace, which is written as it is, and something framed. -/
theorem ofBatch_eq_framed {b : Batch} (hname : Avoids ['\n'] b.context.name) :
    ∃ rest, ofBatch o b = o.metricNamespace.getD "" ++ rest ∧ Framed rest := by
  rw [← Parts.line_ofBatch]
  refine Parts.line_eq_framed hid hname fun text htext => ?_
  obtain ⟨x, -, rfl⟩ := List.mem_map.mp htext
  exact (avoids_ofFloat x).mono (by decide)

end

end Line

end DogStatsD
