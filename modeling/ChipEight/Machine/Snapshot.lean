import ChipEight.Instruction.Decode
import ChipEight.Instruction.Mnemonic
import ChipEight.Machine.Basic

namespace ChipEight

/-!
# Snapshots — the state of a machine as text

* `textOfLines` — lines put together, each with its end;
* `Machine.registerLines`, `Machine.registerText` — the last word, the addresses, the timers, the
  call stack and the registers;
* `Memory.rows`, `Memory.lines`, `Memory.text` — the bytes, sixteen to a line, a run of rows without
  content given as `...`;
* `Screen.rowLine`, `Screen.text` — the picture, `#` for a set pixel and `.` for an unset one.
-/

/-- A text made of lines, each of which ends in a line feed. -/
def textOfLines (lines : List String) : String :=
  String.join (lines.map (· ++ "\n"))

/-! ### Registers -/

namespace Machine

/-- The line of the registers `i` and `i + 8`. -/
def registerPair (m : Machine) (i : Fin 8) : String :=
  "V" ++ Hex.text 1 i.val ++ ": "
    ++ Hex.text 2 (m.registers.get (i.castAdd 8)).toNat
    ++ "   V" ++ Hex.text 1 (i.val + 8) ++ ": "
    ++ Hex.text 2 (m.registers.get (i.natAdd 8)).toNat

/-- The return addresses between brackets, oldest first. -/
def stackText (m : Machine) : String :=
  "[" ++ String.intercalate ", " (m.stack.toList.map fun a => Hex.text 3 a.toNat) ++ "]"

/-- The lines of the snapshot of the registers. -/
def registerLines (m : Machine) : List String :=
  ["OP: " ++ Hex.text 4 m.word.toNat ++ " (" ++ (Instruction.decode m.word).mnemonic ++ ")",
   "PC: " ++ Hex.text 3 m.pc.toNat ++ "  I: " ++ Hex.text 3 m.index.toNat
     ++ "  SP: " ++ Hex.text 1 m.stack.depth,
   "DT: " ++ Hex.text 2 m.delay.toNat ++ "   ST: " ++ Hex.text 2 m.sound.toNat,
   "Stack: " ++ m.stackText]
    ++ (List.finRange 8).map m.registerPair

/-- The snapshot of the registers. -/
def registerText (m : Machine) : String :=
  textOfLines m.registerLines

end Machine

/-! ### Memory -/

namespace Memory

/-- The rows of sixteen bytes, each with the address of its first byte. -/
def rows (m : Memory) : List (Nat × List UInt8) :=
  (List.range 256).map fun r => (16 * r, m.readList (UInt16.ofNat (16 * r)) 16)

/-- The line of a row. -/
def rowLine (address : Nat) (bytes : List UInt8) : String :=
  Hex.text 3 address ++ ":" ++ String.join (bytes.map fun b => " " ++ Hex.text 2 b.toNat)

/-- The lines of rows. `gap` tells whether the line before stands for rows without content, in which
case it stands for those that follow as well. -/
def linesOfRows (gap : Bool) : List (Nat × List UInt8) → List String
  | [] => []
  | (address, bytes) :: rest =>
    if bytes.all (· == 0) then
      if gap then linesOfRows true rest else "..." :: linesOfRows true rest
    else
      rowLine address bytes :: linesOfRows false rest

/-- The lines of the snapshot of the memory. -/
def lines (m : Memory) : List String :=
  linesOfRows false m.rows

/-- The snapshot of the memory. -/
def text (m : Memory) : String :=
  textOfLines m.lines

end Memory

/-! ### Screen -/

namespace Screen

/-- The line of a row of pixels. -/
def rowLine (row : BitVec 64) : String :=
  String.ofList ((List.range 64).map fun x => if row.getMsbD x then '#' else '.')

/-- The snapshot of the screen. -/
def text (s : Screen) : String :=
  textOfLines (s.rows.toList.map rowLine)

end Screen

end ChipEight
