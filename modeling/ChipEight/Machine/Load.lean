import ChipEight.Machine.Basic

namespace ChipEight

/-!
# Loading — laying a program over the memory

A program has at least one byte and at most as many as fit above `Memory.programStart`. Loading
touches those bytes and the size of the program and nothing else; a load that fails touches nothing.

* `LoadError` — why an image is no program, with its text in `LoadError.message`;
* `Machine.load` — the machine with the program in place.
-/

/-- Why an image is no program. -/
inductive LoadError where
  /-- The image has no bytes. -/
  | empty
  /-- The image has `size` bytes, more than `limit`. -/
  | tooLarge (size limit : Nat)
deriving DecidableEq, Repr

/-- The text a failed load is reported with. -/
def LoadError.message : LoadError → String
  | .empty => "ROM is empty"
  | .tooLarge size limit =>
    "ROM is too large (" ++ toString size ++ " bytes), max size is " ++ toString limit ++ " bytes"

/-- The machine with a program laid over its memory. -/
def Machine.load (m : Machine) (image : Array UInt8) : Except LoadError Machine :=
  if image.size = 0 then
    .error .empty
  else if Memory.maxProgramSize < image.size then
    .error (.tooLarge image.size Memory.maxProgramSize)
  else
    .ok { m with memory := m.memory.overlay image, programSize := image.size }

end ChipEight
