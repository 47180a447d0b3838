import DogStatsD.Line

/-!
# Writing Lines in Place

A line is written piece by piece behind what a payload holds already; nothing of it is made up
elsewhere first. Each function here takes the text written so far last and returns it with its own
pieces behind it.
-/

namespace DogStatsD.Line

/-- Write an optional field behind its mark; nothing if the field is not set. -/
def putField (mark : String) (value : Option String) (text : String) : String :=
  match value with
  | none => text
  | some value => text ++ mark ++ value

/-- Write tags, the first one behind the mark of their field and every other one behind a comma. -/
def putTags (begun : Bool) : List String → String → String
  | [], text => text
  | tag :: rest, text =>
    putTags true rest (text ++ (if begun then "," else "|#") ++ dropNewlines tag)

/-- Write what stands on a metric line before its value. -/
def putHeader (o : Options) (name : String) (text : String) : String :=
  let text :=
    match o.metricNamespace with
    | none => text
    | some metricNamespace => text ++ metricNamespace
  text ++ name ++ ":"

/-- Write what stands on a metric line behind its value, with the newline that ends it. -/
def putTrailer (o : Options) (kind : Kind) (tags : List String) (rate : Float)
    (cardinality : Option Cardinality) (timestamp : Option Nat) (text : String) : String :=
  let text := text ++ "|" ++ kind.mark
  let text := if rate < 1.0 then text ++ "|@" ++ Decimal.ofFloat rate else text
  let text := putTags false (o.globalTags ++ tags) text
  let text := putField "|c:" o.containerId text
  let text := putField "|T" (timestamp.map Decimal.ofNat) text
  let text := putField "|card:" ((cardinality.or o.cardinality).map Cardinality.name) text
  text ++ "\n"

/-- Write the line of a metric sample. -/
def putMetric (o : Options) (m : Metric) (text : String) : String :=
  let text := putHeader o m.name text
  let text := text ++ valueText m.value
  putTrailer o m.kind m.tags m.rate m.cardinality m.timestamp text

/-- Write the line of an event. -/
def putEvent (o : Options) (e : Event) (text : String) : String :=
  let text := text ++ "_e\x7b" ++ Decimal.ofNat (escapedSize e.title)
  let text := text ++ "," ++ Decimal.ofNat (escapedSize e.text) ++ "\x7d:"
  let text := text ++ escapeNewlines e.title ++ "|" ++ escapeNewlines e.text
  let text := putField "|d:" (e.timestamp.map Decimal.ofNat) text
  let text := putField "|h:" (e.hostname.map dropNewlines) text
  let text := putField "|k:" (e.aggregationKey.map dropNewlines) text
  let text := putField "|p:" (e.priority.map Priority.name) text
  let text := putField "|s:" (e.sourceType.map dropNewlines) text
  let text := putField "|t:" (e.alertType.map AlertType.name) text
  let text := putTags false (o.globalTags ++ e.tags) text
  let text := putField "|c:" o.containerId text
  text ++ "\n"

/-- Write the line of a service check. -/
def putServiceCheck (o : Options) (c : ServiceCheck) (text : String) : String :=
  let text := text ++ "_sc|" ++ dropNewlines c.name ++ "|" ++ c.status.code
  let text := putField "|d:" (c.timestamp.map Decimal.ofNat) text
  let text := putField "|h:" (c.hostname.map dropNewlines) text
  let text := putTags false (o.globalTags ++ c.tags) text
  let text := putField "|m:" (c.message.map messageText) text
  let text := putField "|c:" o.containerId text
  text ++ "\n"

/-- Write the line of a sample. -/
def putSample (o : Options) : Sample → String → String
  | .metric m => putMetric o m
  | .event e => putEvent o e
  | .serviceCheck c => putServiceCheck o c

end DogStatsD.Line
