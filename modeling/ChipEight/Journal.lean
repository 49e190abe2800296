import ChipEight.Log
import ChipEight.Machine.Step

namespace ChipEight

/-!
# Journal — what was shown and reported during a run

* `Journal` — pictures shown, entries that an observer kept, records of the log;
* `Journal.paint`, `Journal.report`, `Journal.reportOutcome`, `Journal.tell` — one thing more;
* `Crash` — a fault, and the journal up to it.
-/

/-- What was shown and reported, oldest first. -/
structure Journal where
  /-- The pictures that were shown. -/
  frames : Array Screen
  /-- The entries that an observer kept. -/
  entries : Array TraceEntry
  /-- The records of the log. -/
  records : Array LogRecord
deriving DecidableEq, Repr

namespace Journal

/-- The journal in which nothing happened yet. -/
def empty : Journal where
  frames := #[]
  entries := #[]
  records := #[]

/-- The journal with a picture shown. -/
def paint (j : Journal) (s : Screen) : Journal :=
  { j with frames := j.frames.push s }

/-- The journal with a record of the log. -/
def report (j : Journal) (r : LogRecord) : Journal :=
  { j with records := j.records.push r }

/-- The journal with a step's outcome reported: a word that is no instruction is put on record. -/
def reportOutcome (j : Journal) (pc : UInt16) : StepOutcome → Journal
  | .unknown w => j.report (.unknown pc w)
  | _ => j

/-- The journal with an entry told to an observer. -/
def tell (j : Journal) (e : TraceEntry) : Option Tracer → Journal
  | none => j
  | some .log => j.report (.traced e)
  | some t => if t.keeps e then { j with entries := j.entries.push e } else j

end Journal

/-- A fault, and what was shown and reported before it. -/
structure Crash where
  /-- Why the run ended. -/
  fault : Fault
  /-- What was shown and reported before. -/
  journal : Journal
deriving DecidableEq, Repr

end ChipEight
