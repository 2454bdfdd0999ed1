import CallMetrics.Json.Writer
import CallMetrics.Secret
import CallMetrics.Sink.Basic

/-! Sinks that write to a journal: one that records what it is given, and one that writes each
emission as a JSON line with fixed tags. Entries carry the label of their sink. -/

namespace CallMetrics

inductive JournalEntry
  | emission (e : Emission)
  | flush (key : MetricKey)
  | line (text : String)
  deriving DecidableEq

/-- What the sinks of a program have taken, in order, each entry with the label of its sink. -/
structure Journal where
  entries : Array (String × JournalEntry)

namespace Journal

def empty : Journal := ⟨#[]⟩

def push (j : Journal) (label : String) (entry : JournalEntry) : Journal :=
  ⟨j.entries.push (label, entry)⟩

end Journal

def Stage.journal (s : Stage Journal) (label : String) (entry : JournalEntry) : Stage Journal :=
  { s with store := s.store.push label entry }

/-- An emission as a JSON value, members sorted by name; tags only when there are any. -/
def Emission.toValue (tags : Dict String) (now : Int64) (e : Emission) : Value :=
  .record ([("kind", .text e.kind.name), ("name", .text e.key.text)] ++
    (if tags.isEmpty then [] else [("tags", .ofTexts (tags.map maskIfSecret))]) ++
    [("timestampMs", .int now.toInt), ("type", .text "metric"),
      ("values", .list (e.values.map fun v => .int v.toInt))])

namespace Sink

/-- Records well-formed emissions, and flushes. -/
def recording (label : String) : Sink Journal where
  emit e s :=
    match e.check with
    | .ok () => (.ok (), s.journal label (.emission e))
    | .error err => (.error err, s)
  flush key s := (.ok (), s.journal label (.flush key))

/-- Why a line writer fails, for each of its two operations. -/
structure LineFaults where
  write : Option String := none
  flush : Option String := none

/-- Writes each well-formed emission as one JSON line. -/
def lines (label : String) (tags : Dict String) (faults : LineFaults := {}) : Sink Journal where
  emit e s :=
    match e.check, faults.write with
    | .error err, _ => (.error err, s)
    | .ok (), some reason => (.error (.unavailable reason), s)
    | .ok (), none => (.ok (), s.journal label (.line (Json.compactLine (e.toValue tags s.clock.stamp))))
  flush _ s :=
    match faults.flush with
    | some reason => (.error (.unavailable reason), s)
    | none => (.ok (), s)

end Sink
end CallMetrics
