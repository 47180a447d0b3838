import DogStatsD.Proofs.Payload.Write
import DogStatsD.Proofs.Server.Pieces

/-!
# Service Checks Read Back

The message of a service check is the one field that may hold anything. Whatever it holds, what is
written of it has no newline and no field mark of a message in it; and if it holds no bar, a server
reads the whole service check off its line.

* `Server.CheckRecord.ofCheck`: what the line of a service check says;
* `Server.decodeCheck?_ofServiceCheck`: it is read off the line;
* `Line.ofServiceCheck_message`: where the message stands on the line;
* `Payload.write_check_reads_back`: what a payload gets for a service check, and what a server reads
  there.
-/

namespace DogStatsD

open Line (Marked Options Parts)

theorem Status.ofCode?_code (status : Status) : Status.ofCode? status.code = some status := by
  cases status <;> decide

/-- A message with a backslash in each `m:`, and a backslash and an `n` in place of each newline. -/
def Server.spelledMessage (text : String) : String :=
  String.ofList (Line.shownFrom none text.toList)

theorem Line.messageText_eq (text : String) : messageText text = Server.spelledMessage text := by
  rw [Server.spelledMessage, ← toList_messageText, String.ofList_toList]

/-- The message of a service check stands between the other fields and that of the container. -/
theorem Line.ofServiceCheck_message {o : Options} {c : ServiceCheck} {message : String}
    (h : c.message = some message) :
    ∃ front,
      ofServiceCheck { o with containerId := none } { c with message := none } = front ++ "\n" ∧
      ofServiceCheck o c =
        front ++ "|m:" ++ Server.spelledMessage message ++ o.containerField ++ "\n" := by
  refine ⟨"_sc|" ++ dropNewlines c.name ++ "|" ++ c.status.code
    ++ field "|d:" (c.timestamp.map Decimal.ofNat) ++ field "|h:" (c.hostname.map dropNewlines)
    ++ o.tagField c.tags, ?_, ?_⟩
  · simp [ofServiceCheck, Options.containerField, Options.tagField, field]
  · rw [← messageText_eq]
    simp only [ofServiceCheck, h, Option.map_some, field, String.append_assoc]

namespace Server

/-- What the line of a service check says. -/
def CheckRecord.ofCheck (o : Options) (c : ServiceCheck) : CheckRecord where
  name := Line.dropNewlines c.name
  status := c.status
  timestamp := c.timestamp
  hostname := c.hostname.map Line.dropNewlines
  tags := (o.globalTags ++ c.tags).map Line.dropNewlines
  message := c.message.map spelledMessage
  container := o.containerId

variable {o : Options} {c : ServiceCheck}

/-- The pieces of the line of a service check are its name, its status and its fields. -/
theorem readPieces?_ofServiceCheck (ho : o.NoticeUnambiguous) (hc : c.Unambiguous)
    (hmessage : ∀ text ∈ c.message, Avoids ['|'] text) :
    readPieces? (Line.ofServiceCheck o c).toList =
      some (['_', 's', 'c'] :: (Line.dropNewlines c.name).toList :: c.status.code.toList ::
        Marked.pieces (Line.checkFields o c)) := by
  have hstatus : Avoids ['|', '\n'] c.status.code := by
    cases c.status <;> decide
  rw [Line.toList_ofServiceCheck]
  refine readPieces?_intercalate (List.cons_ne_nil _ _) fun mark hmark => ?_
  have hsub : ['|', '\n'] ⊆ ['\n', '|'] := by decide
  refine List.forall_mem_cons.mpr ⟨?_, List.forall_mem_cons.mpr ⟨?_, List.forall_mem_cons.mpr
    ⟨hstatus mark hmark, (Line.free_checkFields hmark ho hc hmessage).not_mem_pieces⟩⟩⟩
  · simp only [List.mem_cons, List.not_mem_nil, or_false] at hmark
    rcases hmark with rfl | rfl <;> decide
  · exact hc.name.dropNewlines mark (hsub hmark)

/-- The fields of a service check are told apart by their marks. -/
theorem readMarked?_checkFields (o : Options) (c : ServiceCheck) :
    readMarked? checkMarks (Marked.pieces (Line.checkFields o c)) =
      some
        [c.timestamp.map Decimal.digitChars, Line.shortText c.hostname,
          (Parts.ofTags c.tags).tagsText o,
          c.message.map fun text => (Line.messageText text).toList,
          o.containerId.map String.toList] := by
  have hapart : Apart ((Line.checkFields o c).map Prod.fst) := (by decide : Apart checkMarks)
  exact readMarked?_pieces hapart

/-- A service check is read off its line, if its message holds no bar. -/
theorem decodeCheck?_ofServiceCheck (ho : o.NoticeUnambiguous) (hc : c.Unambiguous)
    (hmessage : ∀ text ∈ c.message, Avoids ['|'] text) :
    decodeCheck? (Line.ofServiceCheck o c) = some (CheckRecord.ofCheck o c) := by
  have htags := readTags_ofTags ho hc.tags
  have hmessages : c.message.map Line.messageText = c.message.map spelledMessage :=
    Option.map_congr fun text _ => Line.messageText_eq text
  unfold decodeCheck?
  simp only [readPieces?_ofServiceCheck ho hc hmessage, Option.bind_eq_bind, Option.bind_some,
    String.ofList_toList, Status.ofCode?_code, readMarked?_checkFields, readOptional_digits,
    map_ofList_shortText, map_ofList_texts, map_ofList_toList, hmessages, htags]
  rfl

end Server

namespace Payload

open Server (CheckRecord decodeCheck? spelledMessage)

/-- A service check is written as one line, if both limits allow. Whatever its message holds, what
is written of it has no newline and no colon behind an `m`: it is the message with a backslash in
each `m:`, and with each newline spelled out, and it changes nothing else on the line. If the
message holds no bar, a server reads each field that was set off the line, and no other, so that
service checks whose lines are equal say the same. -/
theorem write_check_reads_back {o : Options} (ho : o.NoticeUnambiguous) {c : ServiceCheck}
    (hc : c.Unambiguous) (p : Payload) :
    let line := Line.ofServiceCheck o c
    p.write o (.sample (.serviceCheck c)) =
      (if p.HasRoom line then (.ok 1, p.append line) else (.error .full, p)) ∧
    (∀ message ∈ c.message,
      newlineBytes (spelledMessage message) = 0 ∧
      ¬['m', ':'] <:+: (spelledMessage message).toList ∧
      ∃ front,
        Line.ofServiceCheck { o with containerId := none } { c with message := none } =
          front ++ "\n" ∧
        line = front ++ "|m:" ++ spelledMessage message ++ o.containerField ++ "\n") ∧
    ((∀ message ∈ c.message, Avoids ['|'] message) →
      decodeCheck? line = some (CheckRecord.ofCheck o c) ∧
      ∀ o' c', o'.NoticeUnambiguous → c'.Unambiguous →
        (∀ message ∈ c'.message, Avoids ['|'] message) → Line.ofServiceCheck o' c' = line →
          CheckRecord.ofCheck o' c' = CheckRecord.ofCheck o c) := by
  intro line
  refine ⟨writeSample_eq o p (.serviceCheck c), fun message hmem => ⟨?_, ?_, ?_⟩, fun hplain => ?_⟩
  · rw [← Line.messageText_eq]
    exact newlineBytes_eq_zero.mpr (Line.avoids_messageText message)
  · rw [← Line.messageText_eq]
    exact Line.unmarked_messageText message
  · exact Line.ofServiceCheck_message hmem
  -- Equal lines are read to the same record.
  · have hread := Server.decodeCheck?_ofServiceCheck ho hc hplain
    refine ⟨hread, fun o' c' ho' hc' hplain' hline => ?_⟩
    have hread' := Server.decodeCheck?_ofServiceCheck ho' hc' hplain'
    rw [hline, hread] at hread'
    exact (Option.some.inj hread').symm

/-- A message of marks, broken up ones among them, and of newlines that stand between their
characters. -/
theorem write_check_reads_back_marks_and_newlines :
    let o : Options := { globalTags := ["g"], containerId := some "ci" }
    let c : ServiceCheck :=
      { name := "m\n:", status := .warning, timestamp := some 7, hostname := some ""
        message := some "mm::\nm\n:m\\:m:", tags := ["m:"] }
    let line := "_sc|m:|1|d:7|h:|#g,m:|m:mm\\::\\nm\\n:m\\:m\\:|c:ci\n"
    ({ limits := ⟨80, 1⟩ } : Payload).write o (.sample (.serviceCheck c)) =
      (.ok 1, { limits := ⟨80, 1⟩, text := line, lines := 1 }) ∧
    spelledMessage "mm::\nm\n:m\\:m:" = "mm\\::\\nm\\n:m\\:m\\:" ∧
    decodeCheck? line = some
      { name := "m:", status := .warning, timestamp := some 7, hostname := some ""
        tags := ["g", "m:"], message := some "mm\\::\\nm\\n:m\\:m\\:"
        container := some "ci" } := by
  intro o c line
  have ho : o.NoticeUnambiguous := ⟨by decide, by decide⟩
  have hc : c.Unambiguous := ⟨by decide, by decide, by decide⟩
  obtain ⟨hwrite, -, hread⟩ := write_check_reads_back ho hc { limits := ⟨80, 1⟩ }
  have hline : Line.ofServiceCheck o c = line := by decide +kernel
  rw [hline] at hwrite hread
  refine ⟨?_, by decide +kernel, ?_⟩
  · rw [hwrite]
    decide +kernel
  · rw [(hread (by decide)).1]
    exact congrArg some (by decide +kernel)

end Payload

end DogStatsD
