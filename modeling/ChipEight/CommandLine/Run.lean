import ChipEight.CommandLine.Help
import ChipEight.CommandLine.LogFilter

namespace ChipEight.CommandLine

/-!
# Runs — from arguments to what is printed

A run reads the program, starts a machine with the keys down that are asked for, makes ticks until
the machine stops or there were enough, and prints the last picture and the snapshots. Everything is
printed at the end, so that a fault leaves nothing but its message and the log.

* `FileError` — why a file could not be read;
* `Complaint` — what can be said about the end of a run;
* `Report` — what a run leaves: exit code, output, complaint, log;
* `Emulation`, `Emulation.advance` — a host between ticks, and the ticks;
* `Options.host` — the host that a request starts with;
* `Options.output` — what a request prints of a machine;
* `Options.run`, `NoRequest.report`, `run` — the report of a request, of no request, and of a list
  of arguments.
-/

/-- Why a file could not be read. -/
inductive FileError where
  /-- There is no such file. -/
  | notFound
  /-- Something else, in the words of the system. -/
  | other (text : String)
deriving DecidableEq, Repr

/-- The text an unreadable file is reported with. -/
def FileError.message : FileError → String
  | .notFound => "No such file or directory (os error 2)"
  | .other text => text

/-- What can be said about the end of a run. -/
inductive Complaint where
  /-- Something is wrong with the arguments. -/
  | usage (e : UsageError)
  /-- The program cannot be had. -/
  | failure (context cause : String)
  /-- The machine failed. -/
  | fault (f : Fault)
deriving DecidableEq, Repr

/-- The text of a complaint. -/
def Complaint.text : Complaint → String
  | usage e => "error: " ++ e.text
  | failure context cause => "Error: " ++ context ++ "\n\nCaused by:\n    " ++ cause
  | fault f => f.message

/-- What a run leaves. -/
structure Report where
  /-- The exit code: zero, one for a program that cannot be had, two for arguments with something
  wrong, and 101 for a fault. -/
  code : Nat
  /-- What is printed. -/
  output : String
  /-- What is said about the end, if anything. -/
  complaint : Option Complaint
  /-- The records that are written. -/
  log : List LogRecord
deriving DecidableEq, Repr

namespace Report

/-- What is said about the end, in words. -/
def text (r : Report) : Option String :=
  r.complaint.map Complaint.text

/-- What is said about the end, as far as its words are those of the program. Of what can be wrong
with arguments that is the reason against a key; the rest is said in the words of the reader of
arguments. -/
def message (r : Report) : Option String :=
  match r.complaint with
  | some (.usage (.badKey ..)) => r.text
  | some (.usage _) => none
  | _ => r.text

end Report

/-! ### Ticks -/

/-- A host between two ticks. -/
structure Emulation where
  /-- The host; its journal holds no picture. -/
  host : Host
  /-- How many ticks were made. -/
  ticks : Nat
  /-- How many pictures were shown. -/
  frames : Nat
deriving DecidableEq, Repr

namespace Emulation

/-- The emulation after a tick that left a host: its pictures are counted and let go. -/
def next (e : Emulation) (h : Host) : Emulation where
  host := { h with journal := { h.journal with frames := #[] } }
  ticks := e.ticks + 1
  frames := e.frames + h.journal.frames.size

/-- The emulation after as many ticks as asked for, or up to the first that finds the machine
stopped. -/
def advance : Nat → Emulation → Except Crash Emulation
  | 0, e => .ok e
  | n + 1, e =>
    match e.host.tick with
    | .error c => .error c
    | .ok (.stopped, h) => .ok (e.next h)
    | .ok (.running, h) => advance n (e.next h)

/-- The record of a run that ended. -/
def summary (e : Emulation) : LogRecord :=
  .summary e.ticks e.frames e.host.unknownWords

end Emulation

/-! ### Requests -/

namespace Options

/-- The machine that a request starts with, without a program. `entropy` fixes the random bytes of a
request that names no seed. -/
def machine (o : Options) (entropy : Random.Key) : Machine :=
  match o.seed with
  | some seed => .ofSeed (UInt64.ofNat seed)
  | none => .ofKey entropy

/-- The host that a request starts with: the program in place, the observer told to log if every
step is to be logged, and the keys down that are asked for. -/
def host (o : Options) (entropy : Random.Key) (image : Array UInt8) : Except LoadError Host :=
  match (o.machine entropy).load image with
  | .error e => .error e
  | .ok m =>
    let m := m.withKeypad (o.hold.foldl Keypad.press m.keypad)
    let h := Host.ofMachine m o.stepsPerTick
    .ok { h with
      tracer := if o.trace then some .log else none
      journal := h.journal.report (.loaded image.size) }

/-- The text of a snapshot. -/
def snapshot (m : Machine) : Dump → String
  | .registers => m.registerText
  | .memory => m.memory.text
  | .video => m.screen.text

/-- What a request prints of a machine: the picture, unless it is not wanted, and the snapshots. -/
def output (o : Options) (m : Machine) : String :=
  (if o.noFrame then "" else m.screen.text) ++ String.join (o.dump.map (snapshot m))

/-- The report of a request about a program. -/
def emulate (o : Options) (filter : LogFilter) (entropy : Random.Key) (image : Array UInt8) :
    Report :=
  match o.host entropy image with
  | .error e =>
    { code := 1
      output := ""
      complaint := some (.failure "Failed to load ROM into CHIP-8 memory" e.message)
      log := [] }
  | .ok h =>
    match Emulation.advance o.ticks ⟨h, 0, 0⟩ with
    | .error c =>
      { code := 101
        output := ""
        complaint := some (.fault c.fault)
        log := c.journal.records.toList.filter filter.lets }
    | .ok e =>
      { code := 0
        output := o.output e.host.machine
        complaint := none
        log := (e.host.journal.records.push e.summary).toList.filter filter.lets }

/-- The report of a request, once its file has been read. -/
def run (o : Options) (logSetting : Option String) (entropy : Random.Key)
    (file : Except FileError (Array UInt8)) : Report :=
  match file with
  | .error e =>
    { code := 1
      output := ""
      complaint := some (.failure ("Failed to read ROM file " ++ o.path) e.message)
      log := [] }
  | .ok image => o.emulate (.ofSetting logSetting o.trace) entropy image

end Options

/-- The report of arguments that make no request. `help` is the text of the help, in the lines that
suit the terminal. -/
def NoRequest.report (help : Help → String) : NoRequest → Report
  | .help form =>
    { code := 0
      output := help form
      complaint := none
      log := [] }
  | .wrong e =>
    { code := 2
      output := ""
      complaint := some (.usage e)
      log := [] }

/-- The report of a list of arguments, where `help` is the text of the help. `logSetting` is the
text that the log is filtered by, if there is one, `entropy` fixes the random bytes of a run without
a seed, and `readFile` says what a file holds. -/
def runWith (help : Help → String) (arguments : List String) (logSetting : Option String)
    (entropy : Random.Key) (readFile : String → Except FileError (Array UInt8)) : Report :=
  match Options.read arguments with
  | .error e => e.report help
  | .ok o => o.run logSetting entropy (readFile o.path)

/-- The report of a list of arguments. -/
def run : List String → Option String → Random.Key →
    (String → Except FileError (Array UInt8)) → Report :=
  runWith Help.text

end ChipEight.CommandLine
