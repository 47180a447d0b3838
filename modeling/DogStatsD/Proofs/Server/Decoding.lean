import DogStatsD.Proofs.Line.Framing
import DogStatsD.Proofs.Line.Parts
import DogStatsD.Proofs.Server.Reader

/-!
# Lines Read Back

The server gets back what a client put on a line, provided that nothing on it holds a character that
divides the line.

* `Line.Options.keyOf`, `Line.Parts.key`: the key under which values of a metric arrive;
* `Server.cutLine?_pieces`, `Server.field?_fieldPieces`: what a line falls into, and its fields;
* `Server.readLine?_pieces`: what the server reads off the pieces of a line;
* `Server.pointsIn_line`, `pointsIn_ofTexts`: the points on a line;
* `pointsIn_append`: payloads are read line by line.
-/

namespace DogStatsD

open Line (Parts)
open Server

/-! ## Plain options and contexts -/

/-- The characters that may not occur in a tag. -/
def tagMarks : List Char :=
  [',', '|', '\n']

/-- The options of a client put nothing on a line that divides it. -/
structure Line.Options.IsPlain (o : Line.Options) : Prop where
  tags : ∀ tag ∈ o.globalTags, Avoids tagMarks tag
  container : ∀ id ∈ o.containerId, Avoids ['|', '\n'] id

/-- A context puts nothing on a line that divides it. -/
structure Context.IsPlain (o : Line.Options) (c : Context) : Prop where
  name : Avoids valueMarks (o.metricNamespace.getD "" ++ c.name)
  tags : ∀ tag ∈ c.tags, Avoids tagMarks tag

/-- The key under which the values of a context arrive. -/
def Line.Options.keyOf (o : Line.Options) (kind : Kind) (c : Context) : SeriesKey where
  name := o.metricNamespace.getD "" ++ c.name
  mark := kind.mark
  rate := none
  tags := o.globalTags ++ c.tags
  container := o.containerId
  cardinality := (c.cardinality.or o.cardinality).map Cardinality.name

/-- The line of some values of a context, with a rate that is not shown. -/
def Line.ofTexts (o : Line.Options) (kind : Kind) (c : Context) (rate : Float)
    (texts : List String) : String :=
  Line.header o c.name ++ ":".intercalate texts ++
    Line.trailer o kind c.tags rate c.cardinality none

/-! ## Lines of parts -/

/-- The key under which the values on the line of some parts arrive. -/
def Line.Parts.key (o : Line.Options) (p : Parts) : SeriesKey where
  name := o.metricNamespace.getD "" ++ p.name
  mark := p.kind.mark
  rate := if p.rate < 1.0 then some (Decimal.ofFloat p.rate) else none
  tags := (o.globalTags ++ p.tags).map Line.dropNewlines
  container := o.containerId
  cardinality := (p.cardinality.or o.cardinality).map Cardinality.name

namespace Server

variable {o : Line.Options} {p : Parts}

/-- A line falls into what was put on it, if nothing on it divides it. -/
theorem cutLine?_pieces (ho : o.Unambiguous) (hp : p.Unambiguous) :
    cutLine? (['|'].intercalate (p.pieces o)) = some
      { name := (o.metricNamespace.getD "" ++ p.name).toList
        values := p.texts.map String.toList
        mark := p.kind.mark.toList
        fields := p.fieldPieces o } := by
  have hbars : (['|'].intercalate (p.pieces o)).splitOn '|' = p.pieces o :=
    List.splitOn_intercalate '|' (Parts.not_mem_pieces ho hp (by decide))
      (by simp [Parts.pieces])
  have hcolons : ([':'].intercalate ((o.metricNamespace.getD "" ++ p.name).toList ::
      p.texts.map String.toList)).splitOn ':' =
      (o.metricNamespace.getD "" ++ p.name).toList :: p.texts.map String.toList := by
    refine List.splitOn_intercalate ':' ?_ (by simp)
    rw [List.forall_mem_cons, List.forall_mem_map]
    exact ⟨Parts.not_mem_name ho hp (by decide),
      fun text htext => hp.texts text htext ':' (by decide)⟩
  rw [cutLine?, hbars, Parts.pieces]
  simp only [hcolons]

/-- A field is found by its mark, whichever other fields there are. -/
theorem field?_fieldPieces (o : Line.Options) (p : Parts) :
    field? ['@'] (p.fieldPieces o) = p.rateText ∧
    field? ['#'] (p.fieldPieces o) = p.tagsText o ∧
    field? ['c', ':'] (p.fieldPieces o) = o.containerId.map String.toList ∧
    field? ['c', 'a', 'r', 'd', ':'] (p.fieldPieces o) = p.cardinalityText o := by
  unfold Parts.fieldPieces Parts.piece
  generalize p.rateText = rate
  generalize p.tagsText o = tags
  generalize o.containerId.map String.toList = container
  generalize p.timestamp.map Decimal.digitChars = timestamp
  generalize p.cardinalityText o = cardinality
  -- Any of the fields may be missing.
  cases rate <;> cases tags <;> cases container <;> cases timestamp <;> cases cardinality <;>
    exact ⟨rfl, rfl, rfl, rfl⟩

/-- An empty field of tags holds one empty tag; only a missing one holds none. -/
theorem readTags_tagsText {o : Line.Options} {p : Parts} (ho : o.Unambiguous)
    (hp : p.Unambiguous) :
    readTags (p.tagsText o) = (o.globalTags ++ p.tags).map Line.dropNewlines := by
  unfold Parts.tagsText
  split
  next hnone =>
    rw [hnone]
    rfl
  next hsome =>
    have hcommas : ∀ part ∈ (o.globalTags ++ p.tags).map fun tag =>
        (Line.dropNewlines tag).toList, ',' ∉ part := by
      intro part hpart
      obtain ⟨tag, htag, rfl⟩ := List.mem_map.mp hpart
      have hplain : Avoids [',', '|'] tag := by
        rcases List.mem_append.mp htag with hglobal | hown
        · exact ho.tags tag hglobal
        · exact hp.tags tag hown
      exact hplain.dropNewlines ',' (by decide)
    rw [readTags, List.splitOn_intercalate ',' hcommas (by simpa using hsome), List.map_map]
    simp [Function.comp_def]

/-- The rate is read as it was written, if it was. -/
theorem map_ofList_rateText (p : Parts) :
    p.rateText.map String.ofList =
      if p.rate < 1.0 then some (Decimal.ofFloat p.rate) else none := by
  unfold Parts.rateText
  split <;> simp

/-- The server reads the key and the values off a line. -/
theorem readLine?_pieces (ho : o.Unambiguous) (hp : p.Unambiguous) :
    readLine? (['|'].intercalate (p.pieces o)) = some (p.key o, p.texts) := by
  obtain ⟨hrate, htags, hcontainer, hcardinality⟩ := field?_fieldPieces o p
  rw [readLine?, cutLine?_pieces ho hp, Option.map_some]
  simp only [hrate, htags, hcontainer, hcardinality, map_ofList_rateText, readTags_tagsText ho hp]
  simp [Parts.key, Parts.cardinalityText, Function.comp_def]

end Server

/-! ## Plain lines -/

/-- The parts of a line that shows no rate and no timestamp. -/
def partsOf (kind : Kind) (c : Context) (rate : Float) (texts : List String) : Parts where
  name := c.name
  texts := texts
  kind := kind
  tags := c.tags
  rate := rate
  cardinality := c.cardinality

/-- Plain tags are written as they are. -/
theorem map_dropNewlines {o : Line.Options} {c : Context} (ho : o.IsPlain) (hc : c.IsPlain o) :
    (o.globalTags ++ c.tags).map Line.dropNewlines = o.globalTags ++ c.tags := by
  refine (List.map_congr_left fun tag hmem => dropNewlines_eq_self ?_).trans (List.map_id _)
  have htag : Avoids tagMarks tag := by
    rcases List.mem_append.mp hmem with hglobal | hown
    · exact ho.tags tag hglobal
    · exact hc.tags tag hown
  exact htag.mono (by decide)

/-- Nothing on a plain line can be mistaken for what divides it. -/
theorem unambiguous_of_isPlain {o : Line.Options} {c : Context} (ho : o.IsPlain)
    (hc : c.IsPlain o) (kind : Kind) (rate : Float) {texts : List String}
    (htexts : ∀ text ∈ texts, Avoids valueMarks text) :
    o.Unambiguous ∧ (partsOf kind c rate texts).Unambiguous := by
  have htag {tag : String} (h : Avoids tagMarks tag) : Avoids [',', '|'] tag := h.mono (by decide)
  refine ⟨⟨?_, fun tag hmem => htag (ho.tags tag hmem), ho.container⟩,
    ⟨?_, htexts, fun tag hmem => htag (hc.tags tag hmem)⟩⟩
  · -- The name in its namespace is plain, and so are the two of them.
    intro space hspace mark hmark hmem
    refine hc.name mark hmark ?_
    rw [Option.mem_def.mp hspace, String.toList_append]
    exact List.mem_append_left _ hmem
  · intro mark hmark hmem
    refine hc.name mark hmark ?_
    rw [String.toList_append]
    exact List.mem_append_right _ hmem

/-- The values on a plain line arrive under the key of its context. -/
theorem key_partsOf {o : Line.Options} {c : Context} (ho : o.IsPlain) (hc : c.IsPlain o)
    (kind : Kind) {rate : Float} (hrate : ¬rate < 1.0) (texts : List String) :
    (partsOf kind c rate texts).key o = o.keyOf kind c := by
  have hnone : (if (partsOf kind c rate texts).rate < 1.0 then
      some (Decimal.ofFloat (partsOf kind c rate texts).rate) else none) = none := if_neg hrate
  rw [Parts.key, hnone]
  simp only [partsOf, Line.Options.keyOf, map_dropNewlines ho hc]

/-! ## Payloads -/

/-- Behind a text that ends in a newline, lines are read on their own. -/
theorem pointsIn_append {front : String} (h : Line.Ended front) (back : String) :
    pointsIn (front ++ back) = pointsIn front ++ pointsIn back := by
  obtain ⟨body, rfl⟩ := h
  -- Behind the last newline the server finds an empty line, which holds no point.
  have hnone : pointsOnLine [] = [] := rfl
  have hfront : (body ++ "\n").toList = body.toList ++ '\n' :: [] := by simp
  have hwhole : (body ++ "\n" ++ back).toList = body.toList ++ '\n' :: back.toList := by simp
  unfold pointsIn
  rw [hfront, hwhole, List.splitOn_append_cons_self, List.splitOn_append_cons_self,
    List.flatMap_append, List.flatMap_append, List.splitOn_nil]
  simp [hnone]

/-- The points on a line are its values, each under the key of the line. -/
theorem Server.pointsIn_line {o : Line.Options} {p : Parts} (ho : o.Unambiguous)
    (hp : p.Unambiguous) (hne : p.texts ≠ []) :
    pointsIn (p.line o) = p.texts.map (p.key o, ·) := by
  unfold pointsIn
  rw [Parts.toList_line o p hne,
    List.splitOn_append_cons_self_of_not_mem (Parts.newline_not_mem_pieces ho hp),
    List.flatMap_cons, List.splitOn_nil, pointsOnLine, readLine?_pieces ho hp]
  exact List.append_nil _

/-- The points on a plain line are its values, each under the key of the context. -/
theorem pointsIn_ofTexts {o : Line.Options} {c : Context} (ho : o.IsPlain) (hc : c.IsPlain o)
    (kind : Kind) {rate : Float} (hrate : ¬rate < 1.0) {texts : List String} (hne : texts ≠ [])
    (htexts : ∀ text ∈ texts, Avoids valueMarks text) :
    pointsIn (Line.ofTexts o kind c rate texts) = texts.map (o.keyOf kind c, ·) := by
  obtain ⟨hoptions, hparts⟩ := unambiguous_of_isPlain ho hc kind rate htexts
  have hpoints := pointsIn_line hoptions hparts hne
  rw [key_partsOf ho hc kind hrate] at hpoints
  exact hpoints

end DogStatsD
