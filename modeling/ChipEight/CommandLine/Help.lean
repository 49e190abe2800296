import ChipEight.CommandLine.Options
import ChipEight.Machine.Snapshot

namespace ChipEight.CommandLine

/-!
# Help — what the options are for

The help says what the program does, how it is called, and what each option is for. The short help
says so in one line each, the long one leaves more room. The lines are set as they are where nothing
is known about the width of the terminal, and the default values are those that requests take.

* `HelpEntry`, `HelpEntry.lines` — what is said about one option;
* `HelpEntry.ofSetting`, `HelpEntry.ofSwitch`, `Help.entries` — the options in their order;
* `Help.text` — the whole text.
-/

/-- What is said about one option. -/
structure HelpEntry where
  /-- How the option is written. -/
  head : String
  /-- What it is for. -/
  purpose : String
  /-- What is added in brackets, if anything. -/
  note : Option String
deriving DecidableEq, Repr

namespace HelpEntry

/-- The blanks in front of what is said about an option. -/
def indent : String :=
  String.ofList (List.replicate 10 ' ')

/-- The lines about an option. -/
def lines (e : HelpEntry) : Help → List String
  | .short => [e.head, indent ++ e.purpose ++ (e.note.map (" " ++ ·)).getD ""]
  | .long =>
    [e.head, indent ++ e.purpose]
      ++ (e.note.map fun note => [indent, indent ++ note]).getD []

/-- How an option with a letter or without is written. -/
def headOf (letter : Option Char) (form : String) : String :=
  match letter with
  | some c => "  -" ++ String.ofList [c] ++ ", " ++ form
  | none => "      " ++ form

/-- What an option with a value is for. -/
def purposeOf : Setting → String
  | .ticks => "Host ticks to run before stopping"
  | .stepsPerTick => "Instructions executed per tick"
  | .seed => "Seed for the random number instruction"
  | .hold => "Keypad slot (0x0-0xF) held down for the whole run, may be repeated"
  | .dump => "State to print after the run, may be repeated"

/-- What is added about the values of an option. -/
def noteOf : Setting → Option String
  | .ticks => some ("[default: " ++ Nat.repr Options.defaultTicks ++ "]")
  | .stepsPerTick => some ("[default: " ++ Nat.repr Host.defaultStepsPerTick ++ "]")
  | .dump => some ("[possible values: " ++ Dump.names ++ "]")
  | _ => none

/-- What is said about an option with a value. -/
def ofSetting (s : Setting) : HelpEntry where
  head := headOf s.letter? s.form
  purpose := purposeOf s
  note := noteOf s

/-- What is said about an option without a value, in a help of some length. -/
def ofSwitch (s : Switch) : HelpEntry where
  head := headOf (match s with | .help _ => some 'h' | _ => none) s.form
  purpose :=
    match s with
    | .trace => "Log every executed instruction"
    | .noFrame => "Don't print the final frame"
    | .help .short => "Print help (see more with '--help')"
    | .help .long => "Print help (see a summary with '-h')"
  note := none

end HelpEntry

namespace Help

/-- What is said about the options, in their order. -/
def entries (form : Help) : List HelpEntry :=
  [.ofSetting .ticks, .ofSetting .stepsPerTick, .ofSetting .seed, .ofSetting .hold,
   .ofSwitch .trace, .ofSetting .dump, .ofSwitch .noFrame, .ofSwitch (.help form)]

/-- What the program does. -/
def about : Help → List String
  | short => ["Headless CHIP-8 interpreter"]
  | long =>
    ["Headless CHIP-8 interpreter.", "",
     "Runs a ROM for a fixed number of host ticks and prints the final frame. Set RUST_LOG to "
       ++ "control",
     "logging; --trace logs every instruction."]

/-- How the program is called. -/
def usage : List String :=
  ["", "Usage: emu [OPTIONS] " ++ UsageError.pathForm, ""]

/-- What is said about the path. -/
def path : Help → List String
  | short => ["Arguments:", "  " ++ UsageError.pathForm ++ "  Path to the CHIP-8 ROM file", ""]
  | long =>
    ["Arguments:", "  " ++ UsageError.pathForm, HelpEntry.indent ++ "Path to the CHIP-8 ROM file",
      ""]

/-- What separates one option from the next. -/
def gap : Help → List String
  | short => []
  | long => [""]

/-- The whole text. -/
def text (form : Help) : String :=
  let options := List.intercalate form.gap (form.entries.map (·.lines form))
  textOfLines (form.about ++ usage ++ form.path ++ "Options:" :: options)

end Help

end ChipEight.CommandLine
