import ChipEight.CommandLine.KeySlot
import ChipEight.Host.Basic
import ChipEight.Text.Terminal

namespace ChipEight.CommandLine

/-!
# Options — what the user asks for

Options stand before or after the path of the program. An option with a value takes it attached, as
in `--ticks=5`, `-t5` or `-t=5`, or from the next argument; after `--` every argument is a path.

A value that is attached is judged at once. A value from the next argument, and the path, are judged
when the argument after them has been recognised, or at the end: an argument that cannot be
recognised hides a bad value just before it. Asking for help ends the reading as an error does.

* `Options` — the request as a whole;
* `Setting`, `Switch` — the options with and without a value, and how they are named;
* `UsageError`, `UsageError.text` — what can be wrong with arguments, and how it is said;
* `NoRequest` — why arguments make no request: something is wrong, or help is asked for;
* `Argument`, `Argument.ofText` — what one argument looks like;
* `Draft` — what has been accepted so far, and `Draft.set`, `Draft.turnOn` — one option more;
* `Reader`, `Reader.settle`, `Reader.accept` — the state between two arguments;
* `Options.read` — the whole list of arguments.
-/

/-! ### Requests -/

/-- A snapshot that can be asked for. -/
inductive Dump where
  | registers
  | memory
  | video
deriving DecidableEq, Repr

/-- What the user asks for. -/
structure Options where
  /-- The file that holds the program. -/
  path : String
  /-- How many ticks to run at most. -/
  ticks : Nat
  /-- The steps of a tick. -/
  stepsPerTick : Nat
  /-- What fixes the random bytes, if anything does. -/
  seed : Option Nat
  /-- The keys that are down during the run. -/
  hold : List Nibble
  /-- Whether every step goes to the log. -/
  trace : Bool
  /-- The snapshots to print after the run. -/
  dump : List Dump
  /-- Whether the last picture is not printed. -/
  noFrame : Bool
deriving DecidableEq, Repr

/-- The ticks of a run where nothing else is asked for. -/
abbrev Options.defaultTicks : Nat := 60

/-- The name that a snapshot is asked for by. -/
def Dump.name : Dump → String
  | registers => "registers"
  | memory => "memory"
  | video => "video"

/-- The names of all snapshots. -/
def Dump.names : String :=
  String.intercalate ", " ([registers, memory, video].map name)

/-- An option that takes a value. -/
inductive Setting where
  | ticks
  | stepsPerTick
  | seed
  | hold
  | dump
deriving DecidableEq, Repr

/-- The long name of an option. -/
def Setting.name : Setting → String
  | ticks => "ticks"
  | stepsPerTick => "steps-per-tick"
  | seed => "seed"
  | hold => "hold"
  | dump => "dump"

/-- The letter of an option, if it has one. -/
def Setting.letter? : Setting → Option Char
  | ticks => some 't'
  | stepsPerTick => some 's'
  | _ => none

/-- What the value of an option is called. -/
def Setting.valueName : Setting → String
  | ticks => "TICKS"
  | stepsPerTick => "STEPS_PER_TICK"
  | seed => "SEED"
  | hold => "HOLD"
  | dump => "DUMP"

/-- An option with its value, as messages name it. -/
def Setting.form (s : Setting) : String :=
  "--" ++ s.name ++ " <" ++ s.valueName ++ ">"

/-- How much help is asked for. -/
inductive Help where
  /-- As much as fits into one line for each option. -/
  | short
  /-- All there is. -/
  | long
deriving DecidableEq, Repr

/-- An option that takes none. -/
inductive Switch where
  | trace
  | noFrame
  | help (form : Help)
deriving DecidableEq, Repr

/-- The long name of an option. The letter for short help is the same option under another name. -/
def Switch.name : Switch → String
  | trace => "trace"
  | noFrame => "no-frame"
  | help _ => "help"

/-- An option as messages name it. -/
def Switch.form (s : Switch) : String :=
  "--" ++ s.name

/-! ### What can be wrong -/

/-- What is wrong with arguments. -/
inductive UsageError where
  /-- An argument looks like an option and is none; of its text the part that names the option. -/
  | unknownOption (name : String)
  /-- A value is attached to an option that takes none. -/
  | attachedValue (s : Switch) (value : String)
  /-- An option that takes a value has none. -/
  | missingValue (s : Setting)
  /-- An option with a value is given again. -/
  | repeatedSetting (s : Setting)
  /-- An option without a value is given again. -/
  | repeatedSwitch (s : Switch)
  /-- A value is no numeral. -/
  | badNumeral (s : Setting) (value : String) (e : NumeralError)
  /-- A value names no key. -/
  | badKey (value : String) (e : KeySlotError)
  /-- A value names no snapshot. -/
  | badDump (value : String)
  /-- A path is empty. -/
  | emptyPath
  /-- A second path is given. -/
  | secondPath (text : String)
  /-- No path is given. -/
  | missingPath
deriving DecidableEq, Repr

namespace UsageError

/-- What the path is called. -/
abbrev pathForm : String := "<ROM_PATH>"

/-- A text of the user between quotation marks. Of such a text a message has what a terminal
shows. -/
def quoted (text : String) : String :=
  "'" ++ String.ofList (Terminal.shown text.toList) ++ "'"

/-- The names to choose the value of an option from, if there are such names. -/
def choices : Setting → String
  | .dump => "\n  [possible values: " ++ Dump.names ++ "]"
  | _ => ""

/-- An argument that fits nowhere. -/
def unexpected (text : String) : String :=
  "unexpected argument " ++ quoted text ++ " found"

/-- Something without a value. -/
def absent (form : String) : String :=
  "a value is required for '" ++ form ++ "' but none was supplied"

/-- An option that is given again. -/
def again (form : String) : String :=
  "the argument '" ++ form ++ "' cannot be used multiple times"

/-- A value that an option does not take. -/
def invalid (s : Setting) (value : String) : String :=
  "invalid value " ++ quoted value ++ " for '" ++ s.form ++ "'"

/-- What is said about an error. Hints and a reminder of the usage would follow and are left out. -/
def text : UsageError → String
  | unknownOption name => unexpected name
  | attachedValue s value =>
    "unexpected value " ++ quoted value ++ " for '" ++ s.form ++ "' found; no more were expected"
  | missingValue s => absent s.form ++ choices s
  | repeatedSetting s => again s.form
  | repeatedSwitch s => again s.form
  | badNumeral s value e => invalid s value ++ ": " ++ e.message
  | badKey value e => invalid .hold value ++ ": " ++ e.message
  | badDump value =>
    (if value.isEmpty then absent Setting.dump.form else invalid .dump value) ++ choices .dump
  | emptyPath => absent pathForm
  | secondPath text => unexpected text
  | missingPath => "the following required arguments were not provided:\n  " ++ pathForm

end UsageError

/-- Why arguments make no request. -/
inductive NoRequest where
  /-- Help is asked for. -/
  | help (form : Help)
  /-- Something is wrong with them. -/
  | wrong (e : UsageError)
deriving DecidableEq, Repr

/-! ### Arguments -/

/-- What an argument looks like. -/
inductive Argument where
  /-- The end of the options. -/
  | terminator
  /-- An option that takes a value, with the value if it is attached. -/
  | setting (s : Setting) (attached : Option String)
  /-- An option that takes none, with a value if one is attached nevertheless. -/
  | switch (s : Switch) (attached : Option String)
  /-- Something that looks like an option and is none, with the part that names the option. -/
  | unknown (name : String)
  /-- A value or a path. -/
  | plain (text : String)
deriving DecidableEq, Repr

/-- The option with a value that a long name belongs to. -/
def Setting.ofName? : String → Option Setting
  | "ticks" => some .ticks
  | "steps-per-tick" => some .stepsPerTick
  | "seed" => some .seed
  | "hold" => some .hold
  | "dump" => some .dump
  | _ => none

/-- The option with a value that a letter belongs to. -/
def Setting.ofLetter? : Char → Option Setting
  | 't' => some .ticks
  | 's' => some .stepsPerTick
  | _ => none

/-- The option without a value that a long name belongs to. -/
def Switch.ofName? : String → Option Switch
  | "trace" => some .trace
  | "no-frame" => some .noFrame
  | "help" => some (.help .long)
  | _ => none

/-- The option without a value that a letter belongs to. -/
def Switch.ofLetter? : Char → Option Switch
  | 'h' => some (.help .short)
  | _ => none

/-- The part of a text before the first equals sign, and the part after it if there is one. -/
def splitAssignment : List Char → List Char × Option (List Char)
  | [] => ([], none)
  | '=' :: rest => ([], some rest)
  | c :: rest =>
    let (name, value) := splitAssignment rest
    (c :: name, value)

namespace Argument

/-- An argument that starts with two dashes; `body` is what follows them. -/
def ofLong (body : List Char) : Argument :=
  let (name, value) := splitAssignment body
  match Setting.ofName? (String.ofList name), Switch.ofName? (String.ofList name) with
  | some s, _ => .setting s (value.map String.ofList)
  | none, some s => .switch s (value.map String.ofList)
  | none, none => .unknown (String.ofList ('-' :: '-' :: name))

/-- The value attached to a letter: none, what follows an equals sign, or all that follows. -/
def attachedToLetter : List Char → Option String
  | [] => none
  | '=' :: rest => some (String.ofList rest)
  | rest => some (String.ofList rest)

/-- An argument that starts with a dash and a letter; `rest` is what follows them. Behind the letter
of an option without a value further letters may stand, each an option of its own. As the only such
option ends the reading, they are not looked at. -/
def ofLetter (letter : Char) (rest : List Char) : Argument :=
  match Setting.ofLetter? letter, Switch.ofLetter? letter with
  | some s, _ => .setting s (attachedToLetter rest)
  | none, some s => .switch s none
  | none, none => .unknown (String.ofList ['-', letter])

/-- What an argument looks like. A lone dash is a value. -/
def ofText (text : String) : Argument :=
  match text.toList with
  | ['-', '-'] => .terminator
  | '-' :: '-' :: body => ofLong body
  | '-' :: letter :: rest => ofLetter letter rest
  | _ => .plain text

end Argument

/-! ### Drafts -/

/-- What has been accepted so far: the fields of `Options`, with nothing where nothing was said. -/
structure Draft where
  /-- The file, once it is named. -/
  path : Option String
  /-- The ticks, if they are given. -/
  ticks : Option Nat
  /-- The steps of a tick, if they are given. -/
  stepsPerTick : Option Nat
  /-- The seed, if it is given. -/
  seed : Option Nat
  /-- The keys so far. -/
  hold : List Nibble
  /-- Whether traces have been asked for. -/
  trace : Bool
  /-- The snapshots so far. -/
  dump : List Dump
  /-- Whether the picture has been refused. -/
  noFrame : Bool
deriving DecidableEq, Repr

namespace Draft

/-- Nothing accepted yet. -/
def empty : Draft where
  path := none
  ticks := none
  stepsPerTick := none
  seed := none
  hold := []
  trace := false
  dump := []
  noFrame := false

/-- The largest number that an option takes: 64 bits. -/
abbrev maxNumber : Nat := 18446744073709551615

/-- The value of a decimal numeral, for an option that may be given once. -/
def readOnce (s : Setting) (before : Option Nat) (value : String) : Except NoRequest Nat :=
  match before with
  | some _ => .error (.wrong (.repeatedSetting s))
  | none =>
    match readNumeral 10 maxNumber value.toList with
    | .ok n => .ok n
    | .error e => .error (.wrong (.badNumeral s value e))

/-- The snapshot that a text names. -/
def readDump : String → Except NoRequest Dump
  | "registers" => .ok .registers
  | "memory" => .ok .memory
  | "video" => .ok .video
  | value => .error (.wrong (.badDump value))

/-- The draft with the value of an option accepted. -/
def set (d : Draft) (s : Setting) (value : String) : Except NoRequest Draft :=
  match s with
  | .ticks => (readOnce s d.ticks value).map fun n => { d with ticks := some n }
  | .stepsPerTick =>
    (readOnce s d.stepsPerTick value).map fun n => { d with stepsPerTick := some n }
  | .seed => (readOnce s d.seed value).map fun n => { d with seed := some n }
  | .hold =>
    match readKeySlot value with
    | .ok k => .ok { d with hold := d.hold ++ [k] }
    | .error e => .error (.wrong (.badKey value e))
  | .dump => (readDump value).map fun k => { d with dump := d.dump ++ [k] }

/-- The draft with an option without a value accepted. -/
def turnOn (d : Draft) (s : Switch) : Except NoRequest Draft :=
  match s with
  | .trace =>
    if d.trace then .error (.wrong (.repeatedSwitch s)) else .ok { d with trace := true }
  | .noFrame =>
    if d.noFrame then .error (.wrong (.repeatedSwitch s)) else .ok { d with noFrame := true }
  | .help form => .error (.help form)

/-- The draft with the path accepted. -/
def setPath (d : Draft) (path : String) : Except NoRequest Draft :=
  if path.isEmpty then .error (.wrong .emptyPath) else .ok { d with path := some path }

/-- The request that a draft amounts to. -/
def finish (d : Draft) : Except NoRequest Options :=
  match d.path with
  | none => .error (.wrong .missingPath)
  | some path =>
    .ok {
      path := path
      ticks := d.ticks.getD Options.defaultTicks
      stepsPerTick := d.stepsPerTick.getD Host.defaultStepsPerTick
      seed := d.seed
      hold := d.hold
      trace := d.trace
      dump := d.dump
      noFrame := d.noFrame }

end Draft

/-! ### Reading arguments in order -/

/-- What has been recognised and not yet judged. -/
inductive Pending where
  /-- An option that waits for its value, or has taken it from an argument of its own. -/
  | setting (s : Setting) (value : Option String)
  /-- The path. -/
  | path (text : String)
deriving DecidableEq, Repr

/-- The state between two arguments. -/
structure Reader where
  /-- What has been accepted. -/
  draft : Draft
  /-- What is still to be judged. -/
  pending : Option Pending
  /-- Whether the options have ended. -/
  ended : Bool
deriving DecidableEq, Repr

namespace Reader

/-- The state before the first argument. -/
def start : Reader where
  draft := .empty
  pending := none
  ended := false

/-- The draft with what is pending judged. -/
def settle (r : Reader) : Except NoRequest Draft :=
  match r.pending with
  | none => .ok r.draft
  | some (.setting s none) => .error (.wrong (.missingValue s))
  | some (.setting s (some value)) => r.draft.set s value
  | some (.path text) => r.draft.setPath text

/-- Whether a path has been given. -/
def hasPath (r : Reader) : Bool :=
  match r.pending with
  | some (.path _) => true
  | _ => r.draft.path.isSome

/-- The state after a path. -/
def acceptPath (r : Reader) (text : String) : Except NoRequest Reader :=
  if r.hasPath then
    .error (.wrong (.secondPath text))
  else
    r.settle.map fun d => { r with draft := d, pending := some (.path text) }

/-- The state after an argument that may be an option. -/
def acceptArgument (r : Reader) : Argument → Except NoRequest Reader
  | .terminator => .ok { r with ended := true }
  | .setting s none =>
    r.settle.map fun d => { r with draft := d, pending := some (.setting s none) }
  | .setting s (some value) =>
    (r.settle.bind fun d => d.set s value).map fun d => { r with draft := d, pending := none }
  | .switch s none =>
    (r.settle.bind fun d => d.turnOn s).map fun d => { r with draft := d, pending := none }
  | .switch s (some value) => .error (.wrong (.attachedValue s value))
  | .unknown name => .error (.wrong (.unknownOption name))
  | .plain text =>
    match r.pending with
    | some (.setting s none) => .ok { r with pending := some (.setting s (some text)) }
    | _ => r.acceptPath text

/-- The state after an argument. -/
def accept (r : Reader) (text : String) : Except NoRequest Reader :=
  if r.ended then r.acceptPath text else r.acceptArgument (.ofText text)

/-- The state after a list of arguments. -/
def acceptAll (r : Reader) : List String → Except NoRequest Reader
  | [] => .ok r
  | text :: rest =>
    match r.accept text with
    | .error e => .error e
    | .ok r' => r'.acceptAll rest

end Reader

/-- The request that a list of arguments makes. -/
def Options.read (arguments : List String) : Except NoRequest Options :=
  ((Reader.start.acceptAll arguments).bind Reader.settle).bind Draft.finish

/-! ### Unit tests: a bad value, and what comes after it -/

-- An argument that is recognised brings the bad key before it to light.
example : Options.read ["p", "--hold", "99", "--trace"]
    = .error (.wrong (.badKey "99" (.noSlot 99))) := rfl

-- An argument that is not recognised hides it.
example : Options.read ["p", "--hold", "99", "--bogus"]
    = .error (.wrong (.unknownOption "--bogus")) := rfl

-- An attached value is judged at once.
example : Options.read ["p", "--hold=99", "--bogus"]
    = .error (.wrong (.badKey "99" (.noSlot 99))) := rfl

-- Without a value the end of the options leaves nothing but an error.
example : Options.read ["--hold", "--", "3", "p"] = .error (.wrong (.missingValue .hold)) := rfl

-- What stands behind the request for help is not read any more.
example : Options.read ["--trace", "-h", "--bogus"] = .error (.help .short) := rfl

end ChipEight.CommandLine
