import DogStatsD.Proofs.Line.Newlines
import DogStatsD.Proofs.Payload.History

/-!
# Newlines of Payloads

A server cuts a payload at its newlines, so a payload of as many lines as newlines is read as it was
written. The namespace, metric names and the container id are written as they are: they have to be
without newlines for that, and nothing else has.

* `framed_of_mem_written`: behind the namespace, a write appends one framed line or nothing;
* `History.Framed.run`: every history keeps it so;
* `newlines_frame_lines`: a payload holds a newline byte for every line, at its end.
-/

namespace DogStatsD

/-- The metric name of an entry, if it is written as it is. -/
def Entry.metricName : Entry → Option String
  | .sample (.metric m) => some m.name
  | .batch b => some b.context.name
  | .sample (.event _) | .sample (.serviceCheck _) => none

namespace Payload

/-- What stands on a line: the namespace or nothing, and then a text with a newline at its end
only. -/
def Framed (o : Line.Options) (line : String) : Prop :=
  ∃ front rest, (front = "" ∨ front ∈ o.metricNamespace) ∧ line = front ++ rest ∧ Line.Framed rest

variable {o : Line.Options}

theorem framed_of_namespace {line : String}
    (h : ∃ rest, line = o.metricNamespace.getD "" ++ rest ∧ Line.Framed rest) : Framed o line := by
  obtain ⟨rest, rfl, hrest⟩ := h
  cases hspace : o.metricNamespace with
  | none => exact ⟨"", rest, .inl rfl, rfl, hrest⟩
  | some space => exact ⟨space, rest, .inr hspace, rfl, hrest⟩

/-- Without newlines in the namespace, the only newline of a line is its last character. -/
theorem Framed.whole {line : String} (h : Framed o line)
    (hspace : ∀ space ∈ o.metricNamespace, Avoids ['\n'] space) : Line.Framed line := by
  obtain ⟨front, rest, hfront, rfl, hrest⟩ := h
  refine hrest.append_left ?_
  rcases hfront with rfl | hmem
  · decide
  · exact hspace front hmem

/-- The lines that a write appends are framed behind the namespace. -/
theorem framed_of_mem_written (hid : ∀ id ∈ o.containerId, Avoids ['\n'] id) {e : Entry}
    (hname : ∀ name ∈ e.metricName, Avoids ['\n'] name) {outcome : Except WriteError Nat}
    {line : String} (h : line ∈ written o e outcome) : Framed o line := by
  cases e with
  | batch b =>
    have hbatch (count : Nat) : Framed o (Line.ofBatch o (b.take count)) :=
      framed_of_namespace (Line.ofBatch_eq_framed hid (hname _ rfl))
    match outcome, h with
    | .ok count, h => exact List.mem_singleton.mp h ▸ hbatch count
    | .error (.partly count), h => exact List.mem_singleton.mp h ▸ hbatch count
  | sample s =>
    cases outcome with
    | error e => cases h
    | ok count =>
      obtain rfl := List.mem_singleton.mp h
      cases s with
      | metric m => exact framed_of_namespace (Line.ofMetric_eq_framed hid (hname _ rfl))
      | event e => exact ⟨"", _, .inl rfl, String.empty_append.symm, Line.framed_ofEvent hid e⟩
      | serviceCheck c =>
        exact ⟨"", _, .inl rfl, String.empty_append.symm, Line.framed_ofServiceCheck hid c⟩

namespace History

/-- Whether what a step writes has no newline in its metric name. -/
def PlainName : Step → Prop
  | .write e => ∀ name ∈ e.metricName, newlineBytes name = 0
  | .reset => True

instance (s : Step) : Decidable (PlainName s) :=
  match s with
  | .write e => inferInstanceAs (Decidable (∀ name ∈ e.metricName, newlineBytes name = 0))
  | .reset => isTrue trivial

/-- Every line of a payload is framed behind the namespace. -/
def Framed (o : Line.Options) (h : History) : Prop :=
  ∀ line ∈ h.lines, Payload.Framed o line

theorem framed_empty (o : Line.Options) (limits : Limits) :
    Framed o { payload := { limits } } :=
  List.forall_mem_nil _

/-- A step keeps the lines framed. -/
theorem Framed.step (hid : ∀ id ∈ o.containerId, Avoids ['\n'] id) {h : History}
    (hf : h.Framed o) {s : Step} (hs : PlainName s) : (h.step o s).Framed o := by
  cases s with
  | reset => exact List.forall_mem_nil _
  | write e =>
    refine List.forall_mem_append.mpr ⟨hf, fun line hmem => ?_⟩
    exact framed_of_mem_written hid (fun name hn => newlineBytes_eq_zero.mp (hs name hn)) hmem

/-- Every history keeps the lines framed. -/
theorem Framed.run (hid : ∀ id ∈ o.containerId, Avoids ['\n'] id) {h : History}
    (hf : h.Framed o) {steps : List Step} (hs : ∀ s ∈ steps, PlainName s) :
    (h.run o steps).Framed o := by
  induction steps generalizing h with
  | nil => exact hf
  | cons s rest ih =>
    obtain ⟨hfirst, hrest⟩ := List.forall_mem_cons.mp hs
    exact ih (hf.step hid hfirst) hrest

end History

/-- As long as the container id and the metric names hold no newlines, and whatever else the samples
and the batches hold, a payload is after every history its lines one after the other, and each of
them is the namespace or nothing, a text without newlines, and a newline. If the namespace holds no
newline either, the payload has exactly as many newline bytes as lines, and the only one of a line
is its last byte; one more entry then appends at most one such line. -/
theorem newlines_frame_lines (o : Line.Options) (limits : Limits) (steps : List Step)
    (hid : ∀ id ∈ o.containerId, newlineBytes id = 0)
    (hnames : ∀ s ∈ steps, History.PlainName s) :
    let h := History.run o { payload := { limits } } steps
    let p := h.payload
    p.text = String.join h.lines ∧ p.lines = h.lines.length ∧
    (∀ line ∈ h.lines, ∃ front body, (front = "" ∨ front ∈ o.metricNamespace) ∧
      line = front ++ body ++ "\n" ∧ newlineBytes body = 0) ∧
    ((∀ space ∈ o.metricNamespace, newlineBytes space = 0) →
      newlineBytes p.text = p.lines ∧
      (∀ line ∈ h.lines, ∃ body, line = body ++ "\n" ∧ newlineBytes body = 0) ∧
      ∀ e : Entry, History.PlainName (.write e) →
        (p.write o e).2.text = p.text ∨
        ∃ body, (p.write o e).2.text = p.text ++ body ++ "\n" ∧ newlineBytes body = 0) := by
  intro h p
  have hplain : ∀ id ∈ o.containerId, Avoids ['\n'] id :=
    fun id hmem => newlineBytes_eq_zero.mp (hid id hmem)
  have hsound : h.Sound := (History.sound_empty limits "").run o steps
  have hframed : h.Framed o := (History.framed_empty o limits).run hplain hnames
  refine ⟨hsound.text_eq, hsound.lines_eq, fun line hmem => ?_, fun hspace => ?_⟩
  · obtain ⟨front, rest, hfront, rfl, body, rfl, hbody⟩ := hframed line hmem
    exact ⟨front, body, hfront, String.append_assoc.symm, newlineBytes_eq_zero.mpr hbody⟩
  · have hwhole (line : String) (hline : Payload.Framed o line) : Line.Framed line :=
      hline.whole fun space hmem => newlineBytes_eq_zero.mp (hspace space hmem)
    refine ⟨?_, fun line hmem => ?_, fun e he => ?_⟩
    · -- Every line brings one newline byte.
      have hone : h.lines.map newlineBytes = h.lines.map fun _ => 1 :=
        List.map_congr_left fun line hmem => (hwhole line (hframed line hmem)).newlineBytes_eq
      rw [hsound.text_eq, hsound.lines_eq, newlineBytes_join, hone, List.map_const',
        List.sum_replicate_nat, Nat.mul_one]
    -- The newline at its end is the only one of a line.
    · obtain ⟨body, rfl, hbody⟩ := hwhole line (hframed line hmem)
      exact ⟨body, rfl, newlineBytes_eq_zero.mpr hbody⟩
    -- A write that fails changes nothing.
    · obtain ⟨-, htext, -⟩ | ⟨line, hwritten, -, htext, -⟩ := write_cases o p e
      · exact .inl htext
      · have hmem : line ∈ written o e (p.write o e).1 := by
          rw [hwritten]
          exact List.mem_singleton_self line
        obtain ⟨body, rfl, hbody⟩ := hwhole line <|
          framed_of_mem_written hplain (fun name hn => newlineBytes_eq_zero.mp (he name hn)) hmem
        exact .inr ⟨body, by rw [htext, String.append_assoc], newlineBytes_eq_zero.mpr hbody⟩

/-- A set, a batch, an event and a service check, with newlines in a tag, a member, a title, a text,
a hostname, a name and a message, make four lines with four newlines. -/
theorem newlines_frame_lines_of_each_make :
    let o : Line.Options :=
      { metricNamespace := some "app.", globalTags := ["a\nb"], containerId := some "c" }
    let steps : List Step :=
      [.write (.metric { name := "m", value := .set "x\ny" }),
       .write (.batch ⟨.timing, { name := "m" }, [1.0], 1.0⟩),
       .write (.sample (.event { title := "t\nu", text := "v\n", hostname := some "h\n" })),
       .write (.sample (.serviceCheck { name := "n\n", status := .ok, message := some "m:\n" }))]
    let p := (History.run o { payload := { limits := ⟨8192, 8⟩ } } steps).payload
    p.lines = 4 ∧ newlineBytes p.text = 4 := by
  intro o steps p
  have hid : ∀ id ∈ o.containerId, newlineBytes id = 0 := by decide
  have hnames : ∀ s ∈ steps, History.PlainName s := by decide
  have hspace : ∀ space ∈ o.metricNamespace, newlineBytes space = 0 := by decide
  obtain ⟨-, -, -, hwhole⟩ := newlines_frame_lines o ⟨8192, 8⟩ steps hid hnames
  have hlines : p.lines = 4 := by decide +kernel
  exact ⟨hlines, (hwhole hspace).1.trans hlines⟩

/-- A newline in the namespace, in a metric name or in the container id comes through: each of these
samples passes its check and is written as one line, with two newlines. -/
theorem newline_within_line :
    let put (o : Line.Options) (s : Sample) : Except WriteError Nat × Payload :=
      ({ limits := ⟨8192, 8⟩ } : Payload).write o (.sample s)
    let m : Metric := { name := "b", value := .count 1 }
    let split : Metric := { name := "a\nb", value := .count 1 }
    let e : Event := { title := "t", text := "" }
    (m.validate = .ok () ∧
      put { metricNamespace := some "a\n" } (.metric m) =
        (.ok 1, { limits := ⟨8192, 8⟩, text := "a\nb:1|c\n", lines := 1 })) ∧
    (split.validate = .ok () ∧
      put {} (.metric split) =
        (.ok 1, { limits := ⟨8192, 8⟩, text := "a\nb:1|c\n", lines := 1 })) ∧
    (e.validate = .ok () ∧
      put { containerId := some "c\nd" } (.event e) =
        (.ok 1, { limits := ⟨8192, 8⟩, text := "_e\x7b1,0\x7d:t||c:c\nd\n", lines := 1 })) ∧
    newlineBytes "a\nb:1|c\n" = 2 ∧ newlineBytes "_e\x7b1,0\x7d:t||c:c\nd\n" = 2 := by
  decide +kernel

end Payload

end DogStatsD
