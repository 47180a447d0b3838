import DogStatsD.Proofs.Payload.Write
import DogStatsD.Proofs.Server.Pieces

/-!
# Events Read Back

The sizes that an event line announces are those of the title and the text as they are written, so a
server gets both back whatever they hold, and finds the fields where the text ends.

* `Server.EventRecord.ofEvent`: what the line of an event says;
* `Server.decodeEvent?_ofEvent`: it is read off the line;
* `Payload.write_event_reads_back`: what a payload gets for an event, and what a server reads there.
-/

namespace DogStatsD

open Line (Marked Parts)

theorem Priority.ofName?_name (priority : Priority) :
    Priority.ofName? priority.name = some priority := by
  cases priority <;> decide

theorem AlertType.ofName?_name (alert : AlertType) :
    AlertType.ofName? alert.name = some alert := by
  cases alert <;> decide

/-- A text with a backslash and an `n` in place of each newline. -/
def Server.spelled (text : String) : String :=
  String.ofList (text.toList.flatMap fun c => if c = '\n' then ['\\', 'n'] else [c])

theorem Line.escapeNewlines_eq (text : String) : escapeNewlines text = Server.spelled text := by
  rw [escapeNewlines, escapeChars_eq_flatMap, Server.spelled]

namespace Server

/-- What the line of an event says. -/
def EventRecord.ofEvent (o : Line.Options) (e : Event) : EventRecord where
  title := spelled e.title
  text := spelled e.text
  timestamp := e.timestamp
  hostname := e.hostname.map Line.dropNewlines
  aggregationKey := e.aggregationKey.map Line.dropNewlines
  priority := e.priority
  sourceType := e.sourceType.map Line.dropNewlines
  alertType := e.alertType
  tags := (o.globalTags ++ e.tags).map Line.dropNewlines
  container := o.containerId

/-- The sizes announced are those of what follows. -/
theorem eventHead_eq (title text : String) :
    Line.eventHead title text =
      "_e\x7b" ++ Decimal.ofNat (spelled title).utf8ByteSize ++ "," ++
        Decimal.ofNat (spelled text).utf8ByteSize ++ "\x7d:" := by
  rw [Line.eventHead, ← Line.utf8ByteSize_escapeNewlines, ← Line.utf8ByteSize_escapeNewlines,
    Line.escapeNewlines_eq, Line.escapeNewlines_eq]

/-- The pieces behind the text of an event are those of its fields. -/
theorem readPieces?_eventTail {o : Line.Options} (ho : o.NoticeUnambiguous) {e : Event}
    (he : e.Unambiguous) :
    readPieces? (Line.eventTail o e).toList =
      some ([] :: Marked.pieces (Line.eventFields o e)) := by
  rw [Line.toList_eventTail]
  refine readPieces?_intercalate (List.cons_ne_nil _ _) fun c hc => ?_
  exact List.forall_mem_cons.mpr
    ⟨List.not_mem_nil, (Line.free_eventFields hc ho he).not_mem_pieces⟩

/-- The fields of an event are told apart by their marks. -/
theorem readMarked?_eventFields (o : Line.Options) (e : Event) :
    readMarked? eventMarks (Marked.pieces (Line.eventFields o e)) =
      some
        [e.timestamp.map Decimal.digitChars, Line.shortText e.hostname,
          Line.shortText e.aggregationKey, e.priority.map (·.name.toList),
          Line.shortText e.sourceType, e.alertType.map (·.name.toList),
          (Parts.ofTags e.tags).tagsText o, o.containerId.map String.toList] := by
  have hapart : Apart ((Line.eventFields o e).map Prod.fst) := (by decide : Apart eventMarks)
  exact readMarked?_pieces hapart

/-- The bytes of the line of an event, from the front to the back. -/
theorem bytesOf_ofEvent (o : Line.Options) (e : Event) :
    bytesOf (Line.ofEvent o e) =
      bytesOf "_e\x7b" ++ (bytesOf (Decimal.ofNat (spelled e.title).utf8ByteSize) ++
        (bytesOf "," ++ (bytesOf (Decimal.ofNat (spelled e.text).utf8ByteSize) ++
          (bytesOf "\x7d:" ++ (bytesOf (spelled e.title) ++
            (bytesOf "|" ++ (bytesOf (spelled e.text) ++ bytesOf (Line.eventTail o e)))))))) := by
  rw [Line.ofEvent_eq, eventHead_eq, Line.escapeNewlines_eq, Line.escapeNewlines_eq]
  simp only [bytesOf_append, List.append_assoc]

/-- An event is read off its line. -/
theorem decodeEvent?_ofEvent {o : Line.Options} (ho : o.NoticeUnambiguous) {e : Event}
    (he : e.Unambiguous) :
    decodeEvent? (Line.ofEvent o e) = some (EventRecord.ofEvent o e) := by
  have hcomma (rest : List UInt8) (n : Nat) :
      readSize? (bytesOf (Decimal.ofNat n) ++ (bytesOf "," ++ rest)) =
        some (n, bytesOf "," ++ rest) :=
    readSize?_ofNat n fun byte hbyte => Option.some.inj hbyte ▸ rfl
  have hbrace (rest : List UInt8) (n : Nat) :
      readSize? (bytesOf (Decimal.ofNat n) ++ (bytesOf "\x7d:" ++ rest)) =
        some (n, bytesOf "\x7d:" ++ rest) :=
    readSize?_ofNat n fun byte hbyte => Option.some.inj hbyte ▸ rfl
  have htags : readTags ((Parts.ofTags e.tags).tagsText o) =
      (o.globalTags ++ e.tags).map Line.dropNewlines := readTags_ofTags ho he.tags
  unfold decodeEvent?
  simp only [Option.bind_eq_bind]
  -- From the front to the back: the sizes, the title, the text, and what is behind them.
  rw [bytesOf_ofEvent, skip?_bytesOf, Option.bind_some, hcomma, Option.bind_some, skip?_bytesOf,
    Option.bind_some, hbrace, Option.bind_some, skip?_bytesOf, Option.bind_some, takeText?_bytesOf,
    Option.bind_some, skip?_bytesOf, Option.bind_some, takeText?_bytesOf, Option.bind_some,
    textOf?_bytesOf, Option.bind_some, readPieces?_eventTail ho he, Option.bind_some]
  dsimp only
  -- Then the fields, each as it was set.
  rw [readMarked?_eventFields, Option.bind_some]
  dsimp only
  rw [readOptional_digits, Option.bind_some, readOptional_name Priority.ofName?_name,
    Option.bind_some, readOptional_name AlertType.ofName?_name, Option.bind_some,
    map_ofList_shortText, map_ofList_shortText, map_ofList_shortText, map_ofList_toList, htags]
  rfl

end Server

namespace Payload

open Server (EventRecord decodeEvent? spelled)

/-- Whatever its title and text hold, an event is written as one line with one newline, its last
byte, and both limits decide whether it is. The sizes announced are the numbers of bytes of the
title and the text as they are written, with each newline spelled out. A server that takes so many
bytes off reads these back, and from what is between the bars behind them, it reads each field that
was set, and no other. -/
theorem write_event_reads_back {o : Line.Options} (ho : o.NoticeUnambiguous) {e : Event}
    (he : e.Unambiguous) (p : Payload) :
    ∃ line tail : String,
      p.write o (.sample (.event e)) =
        (if p.HasRoom line then (.ok 1, p.append line) else (.error .full, p)) ∧
      newlineBytes line = 1 ∧ (bytesOf line).getLast? = some 10 ∧
      line = "_e\x7b" ++ Decimal.ofNat (bytesOf (spelled e.title)).length ++ "," ++
        Decimal.ofNat (bytesOf (spelled e.text)).length ++ "\x7d:" ++ spelled e.title ++ "|" ++
        spelled e.text ++ tail ∧
      decodeEvent? line = some (EventRecord.ofEvent o e) := by
  have hid : ∀ id ∈ o.containerId, Avoids ['\n'] id :=
    fun id hmem => (ho.container id hmem).mono (by decide)
  have hframed := Line.framed_ofEvent hid e
  refine ⟨Line.ofEvent o e, Line.eventTail o e, writeSample_eq o p (.event e),
    hframed.newlineBytes_eq, ?_, ?_, Server.decodeEvent?_ofEvent ho he⟩
  · obtain ⟨body, hbody, -⟩ := hframed
    have hlast : bytesOf "\n" = [10] := rfl
    rw [hbody, bytesOf_append, hlast, List.getLast?_concat]
  · rw [length_bytesOf, length_bytesOf, Line.ofEvent_eq, Server.eventHead_eq,
      Line.escapeNewlines_eq, Line.escapeNewlines_eq]

/-- A title and a text that look like parts of a line, and fields that are there and empty. -/
theorem write_event_reads_back_bars_and_newlines :
    let o : Line.Options := { globalTags := ["g"], containerId := some "ci:d" }
    let e : Event :=
      { title := "a|é\n", text := "\n_e\x7b9,9\x7d:|h:x", timestamp := some 7
        hostname := some "h\nost", priority := some .low, sourceType := some ""
        alertType := some .error, tags := [""] }
    let line :=
      "_e\x7b6,14\x7d:a|é\\n|\\n_e\x7b9,9\x7d:|h:x|d:7|h:host|p:low|s:|t:error|#g,|c:ci:d\n"
    ({ limits := ⟨80, 1⟩ } : Payload).write o (.sample (.event e)) =
      (.ok 1, { limits := ⟨80, 1⟩, text := line, lines := 1 }) ∧
    decodeEvent? line = some
      { title := "a|é\\n", text := "\\n_e\x7b9,9\x7d:|h:x", timestamp := some 7
        hostname := some "host", aggregationKey := none, priority := some .low
        sourceType := some "", alertType := some .error, tags := ["g", ""]
        container := some "ci:d" } := by
  intro o e line
  have ho : o.NoticeUnambiguous := ⟨by decide, by decide⟩
  have he : e.Unambiguous := ⟨by decide, by decide, by decide, by decide⟩
  have hput : ({ limits := ⟨80, 1⟩ } : Payload).write o (.sample (.event e)) =
      (.ok 1, { limits := ⟨80, 1⟩, text := line, lines := 1 }) := by decide +kernel
  obtain ⟨written, tail, hwrite, -, -, -, hread⟩ :=
    write_event_reads_back ho he { limits := ⟨80, 1⟩ }
  -- What was written is the line.
  rw [hput] at hwrite
  split at hwrite
  · have htext := congrArg (·.2.text) hwrite
    have hline : line = written := htext.trans String.empty_append
    refine ⟨hput, ?_⟩
    rw [hline, hread]
    exact congrArg some (by decide +kernel)
  · exact absurd (congrArg Prod.fst hwrite) (by simp)

end Payload

end DogStatsD
