import DogStatsD.Decimal.Layout
import DogStatsD.Event
import DogStatsD.Line.Options
import DogStatsD.ServiceCheck

/-!
# Event and Service Check Lines

An event line announces the number of bytes of its title and its text, so that these may hold any
character; a service check line is a plain sequence of fields. Neither carries a namespace or a
cardinality.
-/

namespace DogStatsD.Line

/-- The opening of an event line: the sizes of the title and the text as they are written. -/
def eventHead (title text : String) : String :=
  "_e\x7b" ++ Decimal.ofNat (escapedSize title) ++ "," ++ Decimal.ofNat (escapedSize text) ++
    "\x7d:"

def ofEvent (o : Options) (e : Event) : String :=
  eventHead e.title e.text ++ escapeNewlines e.title ++ "|" ++ escapeNewlines e.text
    ++ field "|d:" (e.timestamp.map Decimal.ofNat)
    ++ field "|h:" (e.hostname.map dropNewlines)
    ++ field "|k:" (e.aggregationKey.map dropNewlines)
    ++ field "|p:" (e.priority.map Priority.name)
    ++ field "|s:" (e.sourceType.map dropNewlines)
    ++ field "|t:" (e.alertType.map AlertType.name)
    ++ o.tagField e.tags ++ o.containerField ++ "\n"

def ofServiceCheck (o : Options) (c : ServiceCheck) : String :=
  "_sc|" ++ dropNewlines c.name ++ "|" ++ c.status.code
    ++ field "|d:" (c.timestamp.map Decimal.ofNat)
    ++ field "|h:" (c.hostname.map dropNewlines)
    ++ o.tagField c.tags
    ++ field "|m:" (c.message.map messageText)
    ++ o.containerField ++ "\n"

end DogStatsD.Line
