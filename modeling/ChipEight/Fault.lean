namespace ChipEight

/-!
# Faults — the ways a run can end

A fault ends the run that raises it; nothing is executed afterwards.

* `Fault` — the causes;
* `Fault.message` — the text that each is reported with.
-/

/-- Why a run ended. -/
inductive Fault where
  /-- A return with no return address stored. -/
  | returnWithoutCall
  /-- A call with every slot of the call stack taken. -/
  | callTooDeep
  /-- A byte above fifteen where one of sixteen registers or keys has to be named. -/
  | notANibble
deriving DecidableEq, Repr

/-- The text a fault is reported with. -/
def Fault.message : Fault → String
  | .returnWithoutCall => "attempt to subtract with overflow"
  | .callTooDeep => "index out of bounds: the len is 16 but the index is 16"
  | .notANibble => "u4 value must be in range 0x0-0xF"

end ChipEight
