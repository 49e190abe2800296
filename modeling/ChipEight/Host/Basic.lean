import ChipEight.Journal
import ChipEight.Machine.Load

namespace ChipEight

/-!
# Host — a machine with what surrounds it

The host runs the machine in ticks of so many steps, shows the screen after each step of a tick that
left the draw flag up, counts the words that are no instruction, and keeps a journal of what an
observer would have seen. A fault ends the run and leaves the journal as it was before the step.

* `Host` — the machine and its surroundings;
* `Host.step` — one step, told to the observer;
* `Host.turn`, `Host.batch`, `Host.tick` — a step of a tick, several of them, and the whole tick.
-/

/-- A machine and its surroundings. -/
structure Host where
  /-- The machine. -/
  machine : Machine
  /-- The steps of one tick. -/
  stepsPerTick : Nat
  /-- The observer that is told of every step. -/
  tracer : Option Tracer
  /-- How many words that are no instruction were met in ticks. -/
  unknownWords : Nat
  /-- What was shown and reported. -/
  journal : Journal
deriving DecidableEq, Repr

/-- What a tick came to. -/
inductive TickOutcome where
  /-- The machine can take another tick. -/
  | running
  /-- The program counter left the program, or the switch is off. -/
  | stopped
deriving DecidableEq, Repr

namespace Host

/-- The steps of a tick where nothing else is asked for. -/
abbrev defaultStepsPerTick : Nat := 10

/-- A host for a machine, with no observer and nothing on record. -/
def ofMachine (m : Machine) (stepsPerTick : Nat) : Host where
  machine := m
  stepsPerTick := stepsPerTick
  tracer := none
  unknownWords := 0
  journal := .empty

/-- A host for a new machine. -/
def ofSeed (seed : UInt64) (stepsPerTick : Nat) : Host :=
  ofMachine (.ofSeed seed) stepsPerTick

/-- The host with another machine. -/
def withMachine (h : Host) (m : Machine) : Host :=
  { h with machine := m }

/-- The host with an empty journal. -/
def clearJournal (h : Host) : Host :=
  { h with journal := .empty }

/-- One step of the machine. A word that is no instruction is reported to the log first; then the
observer is told of the word and the address that it was fetched from. -/
def step (h : Host) : Except Crash (StepOutcome × Host) :=
  match h.machine.step with
  | .error f => .error ⟨f, h.journal⟩
  | .ok (outcome, m) =>
    let journal := (h.journal.reportOutcome h.machine.pc outcome).tell
      (.ofWord h.machine.pc h.machine.fetched) h.tracer
    .ok (outcome, { h with machine := m, journal := journal })

/-- The host with an outcome counted. -/
def count (h : Host) : StepOutcome → Host
  | .unknown _ => { h with unknownWords := h.unknownWords + 1 }
  | _ => h

/-- Shows the screen and takes the draw flag down, if it is up. -/
def paint (h : Host) : Host :=
  if h.machine.drawFlag then
    { h with machine := h.machine.clearDrawFlag, journal := h.journal.paint h.machine.screen }
  else
    h

/-- A step of a tick: the outcome is counted and the screen shown if the draw flag is up. -/
def turn (h : Host) : Except Crash Host :=
  match h.step with
  | .error c => .error c
  | .ok (outcome, h') => .ok (h'.count outcome).paint

/-- As many steps of a tick as asked for, or fewer if the machine stops before. -/
def batch : Nat → Host → Except Crash Host
  | 0, h => .ok h
  | n + 1, h =>
    if h.machine.isRunning then
      match h.turn with
      | .error c => .error c
      | .ok h' => batch n h'
    else
      .ok h

/-- What a tick came to, seen from the host that it left. -/
def tickOutcome (h : Host) : TickOutcome :=
  if h.machine.isRunning then .running else .stopped

/-- One tick. -/
def tick (h : Host) : Except Crash (TickOutcome × Host) :=
  match batch h.stepsPerTick h with
  | .error c => .error c
  | .ok h' => .ok (h'.tickOutcome, h')

end Host

end ChipEight
