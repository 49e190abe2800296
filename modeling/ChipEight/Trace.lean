import ChipEight.Instruction.Decode

namespace ChipEight

/-!
# Traces — the words that were executed, as an observer is told

* `TraceEntry` — what an observer is told of one step;
* `TraceEntry.ofWord` — the entry of a word and its address;
* `Tracer` — the observers that a host can install, and `Tracer.keeps` — which entries they keep.
-/

/-- What an observer is told of one step. -/
inductive TraceEntry where
  /-- The word at `pc` was executed as an instruction. -/
  | instruction (pc word : UInt16) (i : Instruction)
  /-- The word at `pc` is no instruction. -/
  | unknown (pc word : UInt16)
deriving DecidableEq, Repr

/-- The entry of the word that stands at an address. -/
def TraceEntry.ofWord (pc word : UInt16) : TraceEntry :=
  match Instruction.decode word with
  | .unknown w => .unknown pc w
  | i => .instruction pc word i

/-- Whether the word of an entry is no instruction. -/
def TraceEntry.isUnknown : TraceEntry → Bool
  | .instruction .. => false
  | .unknown .. => true

/-- An observer of a run. -/
inductive Tracer where
  /-- Keeps every entry. -/
  | recordAll
  /-- Keeps the entries of instructions. -/
  | recordKnown
  /-- Keeps nothing and writes every entry to the log. -/
  | log
deriving DecidableEq, Repr

/-- Whether an observer keeps an entry. -/
def Tracer.keeps (e : TraceEntry) : Tracer → Bool
  | .recordAll => true
  | .recordKnown => !e.isUnknown
  | .log => false

end ChipEight
