import ChipEight.Nibble

namespace ChipEight

/-!
# Instructions — what one word of a program asks for

* `AluOp` — the nine operations on two registers;
* `Instruction` — everything that a word can decode to.

Registers are named by nibbles. Addresses keep the width of a word, since an offset jump can leave
the address space of the memory; immediate values are bytes.
-/

/-- The operations that combine two registers. -/
inductive AluOp where
  | set
  | or
  | and
  | xor
  | add
  | sub
  | shiftRight
  | subReverse
  | shiftLeft
deriving DecidableEq, Repr

/-- One instruction. -/
inductive Instruction where
  /-- Blanks the screen. -/
  | clear
  /-- Continues at the newest return address, which is taken off the call stack. -/
  | ret
  /-- Continues at `target`. -/
  | jump (target : UInt16)
  /-- Continues at `base` plus register zero. -/
  | jumpOffset (base : UInt16)
  /-- Stores the address that follows and continues at `target`. -/
  | call (target : UInt16)
  /-- Skips the next word if the register holds `value`. -/
  | skipEqual (x : Nibble) (value : UInt8)
  /-- Skips the next word unless the register holds `value`. -/
  | skipUnequal (x : Nibble) (value : UInt8)
  /-- Skips the next word if the two registers agree. -/
  | skipSame (x y : Nibble)
  /-- Skips the next word unless the two registers agree. -/
  | skipDifferent (x y : Nibble)
  /-- Puts `value` into the register. -/
  | set (x : Nibble) (value : UInt8)
  /-- Adds `value` to the register and leaves the flag alone. -/
  | add (x : Nibble) (value : UInt8)
  /-- Combines the two registers into the first. -/
  | alu (op : AluOp) (x y : Nibble)
  /-- Puts the next random byte under `mask` into the register. -/
  | random (x : Nibble) (mask : UInt8)
  /-- Puts `address` into the index. -/
  | setIndex (address : UInt16)
  /-- Adds the register to the index. -/
  | addIndex (x : Nibble)
  /-- Draws the `height` bytes at the index with its origin at the two registers. -/
  | draw (x y height : Nibble)
  /-- Skips the next word if the key named by the register is down. -/
  | skipKeyDown (x : Nibble)
  /-- Skips the next word unless the key named by the register is down. -/
  | skipKeyUp (x : Nibble)
  /-- Waits until a key is down and puts its number into the register. -/
  | awaitKey (x : Nibble)
  /-- Reads the delay timer into the register. -/
  | readDelay (x : Nibble)
  /-- Starts the delay timer from the register. -/
  | startDelay (x : Nibble)
  /-- Starts the sound timer from the register. -/
  | startSound (x : Nibble)
  /-- Points the index at the glyph of the digit in the register. -/
  | glyph (x : Nibble)
  /-- Writes the three decimal digits of the register at the index. -/
  | decimal (x : Nibble)
  /-- Writes the registers up to this one at the index. -/
  | store (x : Nibble)
  /-- Reads the registers up to this one from the index. -/
  | load (x : Nibble)
  /-- A word that is no instruction. -/
  | unknown (word : UInt16)
deriving DecidableEq, Repr

end ChipEight
