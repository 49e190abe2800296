import ChipEight.Instruction.Mnemonic
import ChipEight.Trace

namespace ChipEight

/-!
# Log — what a run reports about itself

A record is what happened; its level, the module it is reported for and its text follow from that.

* `LogLevel` — from errors down to traces;
* `LogRecord` — the events that are reported;
* `LogRecord.level`, `LogRecord.target`, `LogRecord.message` — how each is written.
-/

/-- How important a record is, the most important first. -/
inductive LogLevel where
  | error
  | warn
  | info
  | debug
  | trace
deriving DecidableEq, Repr

/-- The name of a level. -/
def LogLevel.name : LogLevel → String
  | .error => "ERROR"
  | .warn => "WARN"
  | .info => "INFO"
  | .debug => "DEBUG"
  | .trace => "TRACE"

/-- The place of a level, one for the most important. -/
def LogLevel.rank : LogLevel → Nat
  | .error => 1
  | .warn => 2
  | .info => 3
  | .debug => 4
  | .trace => 5

/-- An event that is reported. -/
inductive LogRecord where
  /-- A program of `size` bytes was loaded. -/
  | loaded (size : Nat)
  /-- The word at `pc` is no instruction. -/
  | unknown (pc word : UInt16)
  /-- An observer was told of a step. -/
  | traced (e : TraceEntry)
  /-- A run ended after so many ticks, having shown so many pictures and met so many words that are
  no instruction. -/
  | summary (ticks frames unread : Nat)
deriving DecidableEq, Repr

namespace LogRecord

/-- The level of a record. -/
def level : LogRecord → LogLevel
  | .loaded _ => .debug
  | .unknown .. => .debug
  | .traced _ => .trace
  | .summary .. => .info

/-- The module that a record is reported for. -/
def target : LogRecord → String
  | .loaded _ => "chip8_interp::chip8"
  | .unknown .. => "chip8_interp::execute"
  | .traced _ => "chip8_interp::trace"
  | .summary .. => "emu"

/-- The text of a record. -/
def message : LogRecord → String
  | .loaded size => "loaded " ++ toString size ++ " byte program at 0x200"
  | .unknown pc word =>
    "unknown opcode " ++ Hex.marked 4 word.toNat ++ " at " ++ Hex.marked 3 pc.toNat
  | .traced (.instruction pc word i) =>
    Hex.marked 3 pc.toNat ++ ": " ++ Hex.text 4 word.toNat ++ " " ++ i.mnemonic
  | .traced (.unknown pc word) =>
    Hex.marked 3 pc.toNat ++ ": " ++ Hex.text 4 word.toNat ++ " unknown opcode"
  | .summary ticks frames unread =>
    "ran " ++ toString ticks ++ " ticks, " ++ toString frames ++ " repaints, "
      ++ toString unread ++ " unknown opcodes"

end LogRecord

end ChipEight
