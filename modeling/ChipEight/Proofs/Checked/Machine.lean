import ChipEight.Machine.Load
import ChipEight.Machine.Snapshot
import ChipEight.Machine.Step
import ChipEight.Proofs.Checked.Basic

namespace ChipEight

/-!
# The checked machine — a machine whose every sum and every place is checked

The same machine once more, operation by operation: bytes, registers, slots of the call stack and
pixels are places of arrays, the sizes and coordinates that do not wrap are checked sums, and
whatever repeats is a loop over places. Only what is meant to wrap (the program counter, the index
with an offset, the bytes of registers) wraps. Nothing is assumed about the machine, so that any of
these functions can be refused.

* `Checked.pixel`, `Checked.flip`, `Checked.plot` — one pixel of the screen;
* `Checked.drawPixel`, `Checked.drawRow`, `Checked.draw` — drawing, pixel by pixel;
* `Checked.call`, `Checked.ret` — the call stack;
* `Checked.glyph`, `Checked.decimal`, `Checked.storeRegisters`, `Checked.loadRegisters`,
  `Checked.awaitKey` — the other instructions that count places;
* `Checked.decode`, `Checked.execute`, `Checked.step` — a step;
* `Checked.load`, `Checked.isRunning`, `Checked.stack` — what a host asks for;
* `Checked.registerText`, `Checked.memoryText`, `Checked.screenText` — the snapshots.
-/

namespace Checked

/-! ### Memory and registers -/

/-- The byte at an address, which wraps at the top of the memory. -/
def read (memory : Memory) (a : UInt16) : Checked UInt8 :=
  get memory (a.toNat % 4096)

/-- The memory with another byte at an address. -/
def write (memory : Memory) (a : UInt16) (b : UInt8) : Checked Memory :=
  set memory (a.toNat % 4096) b

/-- The byte in a register. -/
def register (m : Machine) (x : Nibble) : Checked UInt8 :=
  get m.registers x.val

/-- The machine with a byte in a register. -/
def put (m : Machine) (x : Nibble) (b : UInt8) : Checked Machine := do
  let registers ← set m.registers x.val b
  .ok { m with registers }

/-! ### Drawing -/

/-- A pixel of the screen. -/
def pixel (s : Screen) (row column : Nat) : Checked Bool := do
  let line ← get s.rows row
  if column < 64 then .ok (line.getMsbD column) else .error (.index 64 column)

/-- The screen with one pixel turned over. -/
def flip (s : Screen) (row column : Nat) : Checked Screen := do
  let line ← get s.rows row
  if column < 64 then
    let rows ← set s.rows row (line ^^^ Screen.line 0x80 column)
    .ok { rows }
  else
    .error (.index 64 column)

/-- The machine with one pixel turned over, and the flag put up if the pixel was set. -/
def plot (m : Machine) (row column : Nat) : Checked Machine := do
  let on ← pixel m.screen row column
  let flag ← register m Registers.flag
  let m ← put m Registers.flag (flag ||| on.toUInt8)
  let screen ← flip m.screen row column
  .ok { m with screen }

/-- The machine after drawing pixel `j` of row `k` of a sprite, if the byte of the row has it
set. -/
def drawPixel (left top k : Nat) (byte : UInt8) (j : Nat) (m : Machine) : Checked Machine := do
  let mask ← shiftRight 0x80 j
  if byte &&& mask = 0 then
    .ok m
  else
    let row ← add sizeLimit top k
    let column ← add sizeLimit left j
    plot m row column

/-- The machine after drawing row `k` of a sprite, `columns` pixels of it. -/
def drawRow (left top columns k : Nat) (m : Machine) : Checked Machine := do
  let byte ← read m.memory (m.index + UInt16.ofNat k)
  loop columns m (drawPixel left top k byte)

/-- The machine after drawing the sprite of `n` bytes at the index. -/
def draw (m : Machine) (x y n : Nibble) : Checked Machine := do
  let a ← register m x
  let b ← register m y
  let below ← sub 32 (b.toNat % 32)
  let beside ← sub 64 (a.toNat % 64)
  let m ← put m Registers.flag 0
  let m ← loop (min n.val below) m (drawRow (a.toNat % 64) (b.toNat % 32) (min 8 beside))
  .ok { m with drawFlag := true }

/-! ### Instructions that count places -/

/-- The machine after a call: the slot is filled first and counted then. -/
def call (m : Machine) (a : UInt16) : Checked Machine := do
  let slots ← set m.stack.slots m.stack.depth m.pc
  let depth ← add byteLimit m.stack.depth 1
  .ok { m with pc := a, stack := { slots, depth } }

/-- The machine after a return: the slot is counted down first and read then. -/
def ret (m : Machine) : Checked Machine := do
  let depth ← sub m.stack.depth 1
  let a ← get m.stack.slots depth
  .ok { m with pc := a, stack := { m.stack with depth } }

/-- The machine after an operation on two registers. -/
def combine (m : Machine) (op : AluOp) (x y : Nibble) : Checked Machine := do
  let a ← register m x
  let b ← register m y
  let m ← put m x (op.result a b)
  match op.flag? a b with
  | some flag => put m Registers.flag flag.toUInt8
  | none => .ok m

/-- The machine with the index at the glyph of a digit. -/
def glyph (m : Machine) (x : Nibble) : Checked Machine := do
  let digit ← register m x
  let offset ← mul wordLimit digit.toNat Glyph.height
  let address ← add wordLimit Glyph.start offset
  .ok { m with index := UInt16.ofNat address }

/-- The machine after writing the decimal digits of a register. -/
def decimal (m : Machine) (x : Nibble) : Checked Machine := do
  let b ← register m x
  let last ← add sizeLimit m.index.toNat 2
  let m ← put m Registers.flag (decide (0xFFF < last)).toUInt8
  let memory ← write m.memory m.index (b / 100)
  let memory ← write memory (m.index + 1) (b / 10 % 10)
  let memory ← write memory (m.index + 2) (b % 10)
  .ok { m with memory }

/-- The machine after writing register `k` to memory. -/
def storeRegister (k : Nat) (m : Machine) : Checked Machine := do
  let b ← get m.registers k
  let memory ← write m.memory (m.index + UInt16.ofNat k) b
  .ok { m with memory }

/-- The machine after writing the registers up to `x` to memory. -/
def storeRegisters (m : Machine) (x : Nibble) : Checked Machine :=
  loop (x.val + 1) m storeRegister

/-- The machine after reading register `k` from memory. -/
def loadRegister (k : Nat) (m : Machine) : Checked Machine := do
  let b ← read m.memory (m.index + UInt16.ofNat k)
  let registers ← set m.registers k b
  .ok { m with registers }

/-- The machine after reading the registers up to `x` from memory. -/
def loadRegisters (m : Machine) (x : Nibble) : Checked Machine :=
  loop (x.val + 1) m loadRegister

/-- The machine after looking for a key: the first that is down has its number put into a
register. -/
def awaitKey (m : Machine) (x : Nibble) : Checked (StepOutcome × Machine) :=
  match m.keypad.keys.toList.findIdx? id with
  | some i => do
    let k ← nibble (UInt8.ofNat i)
    let m ← put m x (Nibble.toByte k)
    .ok (.proceeded, m)
  | none => .ok (.waiting, { m with pc := m.pc - 2 })

/-! ### A step -/

/-- The word at the program counter. -/
def fetched (m : Machine) : Checked UInt16 := do
  let high ← read m.memory m.pc
  let low ← read m.memory (m.pc + 1)
  .ok (UInt16.ofNat (high.toNat * 256 + low.toNat))

/-- The instruction of a word, each of whose lower three fields has to be a nibble. -/
def decode (w : UInt16) : Checked Instruction := do
  let _ ← nibble ((w &&& 0x0F00) >>> 8).toUInt8
  let _ ← nibble ((w &&& 0x00F0) >>> 4).toUInt8
  let _ ← nibble (w &&& 0x000F).toUInt8
  .ok (.decode w)

/-- The outcome of an instruction with nothing to report, from the machine that it left. -/
def proceeded (m : Checked Machine) : Checked (StepOutcome × Machine) := do
  let m ← m
  .ok (.proceeded, m)

/-- Executes an instruction; the program counter is past its word already. -/
def execute (m : Machine) : Instruction → Checked (StepOutcome × Machine)
  | .clear => .ok (.drew, { m with screen := .blank, drawFlag := true })
  | .ret => proceeded (ret m)
  | .jump a => .ok (.proceeded, { m with pc := a })
  | .jumpOffset a => proceeded do
    let b ← register m Registers.offset
    .ok { m with pc := a + b.toUInt16 }
  | .call a => proceeded (call m a)
  | .skipEqual x b => proceeded do
    let a ← register m x
    .ok (m.skipIf (a == b))
  | .skipUnequal x b => proceeded do
    let a ← register m x
    .ok (m.skipIf (a != b))
  | .skipSame x y => proceeded do
    let a ← register m x
    let b ← register m y
    .ok (m.skipIf (a == b))
  | .skipDifferent x y => proceeded do
    let a ← register m x
    let b ← register m y
    .ok (m.skipIf (a != b))
  | .set x b => proceeded (put m x b)
  | .add x b => proceeded do
    let a ← register m x
    put m x (a + b)
  | .alu op x y => proceeded (combine m op x y)
  | .random x mask => proceeded do
    let m' ← put m x (m.random.next.1 &&& mask)
    .ok { m' with random := m.random.next.2 }
  | .setIndex a => .ok (.proceeded, { m with index := a })
  | .addIndex x => proceeded do
    let b ← register m x
    .ok { m with index := m.index + b.toUInt16 }
  | .draw x y n => do
    let m ← draw m x y n
    .ok (.drew, m)
  | .skipKeyDown x => proceeded do
    let b ← register m x
    .ok (m.skipIf (m.keypad.isDown b))
  | .skipKeyUp x => proceeded do
    let b ← register m x
    .ok (m.skipIf (!m.keypad.isDown b))
  | .awaitKey x => awaitKey m x
  | .readDelay x => proceeded (put m x m.delay)
  | .startDelay x => proceeded do
    let b ← register m x
    .ok { m with delay := b }
  | .startSound x => proceeded do
    let b ← register m x
    .ok { m with sound := b }
  | .glyph x => proceeded (glyph m x)
  | .decimal x => proceeded (decimal m x)
  | .store x => proceeded (storeRegisters m x)
  | .load x => proceeded (loadRegisters m x)
  | .unknown w => .ok (.unknown w, m)

/-- Fetches a word, executes its instruction and counts the timers down. -/
def step (m : Machine) : Checked (StepOutcome × Machine) := do
  let word ← fetched m
  let i ← decode word
  let (outcome, m') ← execute { m with word, pc := m.pc + 2 } i
  .ok (outcome, m'.countDown)

/-! ### What a host asks for -/

/-- The machine with a program copied over its memory. -/
def load (m : Machine) (image : Array UInt8) : Checked (Except LoadError Machine) := do
  if image.size = 0 then
    .ok (.error .empty)
  else if Memory.maxProgramSize < image.size then
    .ok (.error (.tooLarge image.size Memory.maxProgramSize))
  else
    let stop ← add sizeLimit Memory.programStart image.size
    if stop < Memory.programStart then
      .error (.rangeOrder Memory.programStart stop)
    else if 4096 < stop then
      .error (.rangeEnd 4096 stop)
    else if stop - Memory.programStart ≠ image.size then
      .error (.lengths image.size (stop - Memory.programStart))
    else
      .ok (.ok { m with memory := m.memory.overlay image, programSize := image.size })

/-- Whether the switch is on and the next word stands before the end of the program. -/
def isRunning (m : Machine) : Checked Bool := do
  let stop ← add sizeLimit Memory.programStart m.programSize
  .ok (decide (m.pc.toNat < stop) && m.running)

/-- The return addresses that count, oldest first. -/
def stack (m : Machine) : Checked (List UInt16) :=
  take m.stack.slots m.stack.depth

/-- The line of the registers `i` and `i + 8`. -/
def registerPair (m : Machine) (i : Nat) : Checked String := do
  let a ← get m.registers i
  let k ← add sizeLimit i 8
  let b ← get m.registers k
  .ok ("V" ++ Hex.text 1 i ++ ": " ++ Hex.text 2 a.toNat
    ++ "   V" ++ Hex.text 1 k ++ ": " ++ Hex.text 2 b.toNat)

/-- The snapshot of the registers. -/
def registerText (m : Machine) : Checked String := do
  let i ← decode m.word
  let addresses ← stack m
  let pairs ← (List.finRange 8).mapM fun i => registerPair m i.val
  .ok (textOfLines (
    ["OP: " ++ Hex.text 4 m.word.toNat ++ " (" ++ i.mnemonic ++ ")",
     "PC: " ++ Hex.text 3 m.pc.toNat ++ "  I: " ++ Hex.text 3 m.index.toNat
       ++ "  SP: " ++ Hex.text 1 m.stack.depth,
     "DT: " ++ Hex.text 2 m.delay.toNat ++ "   ST: " ++ Hex.text 2 m.sound.toNat,
     "Stack: "
       ++ ("[" ++ String.intercalate ", " (addresses.map fun a => Hex.text 3 a.toNat) ++ "]")]
      ++ pairs))

/-- The lines of rows, each given by its number; `gap` is as in `Memory.linesOfRows`. -/
def linesOfRows (gap : Bool) : List (Nat × List UInt8) → Checked (List String)
  | [] => .ok []
  | (k, bytes) :: rest => do
    if bytes.all (· == 0) then
      let lines ← linesOfRows true rest
      .ok (if gap then lines else "..." :: lines)
    else
      let address ← mul sizeLimit k 16
      let lines ← linesOfRows false rest
      .ok (Memory.rowLine address bytes :: lines)

/-- The snapshot of the memory. -/
def memoryText (memory : Memory) : Checked String := do
  let rows ← (List.range 256).mapM fun k => do
    let bytes ← (List.range 16).mapM fun j => get memory (16 * k + j)
    .ok (k, bytes)
  let lines ← linesOfRows false rows
  .ok (textOfLines lines)

/-- The snapshot of the screen. -/
def screenText (s : Screen) : Checked String := do
  let lines ← (List.finRange 32).mapM fun y => do
    let line ← (List.range 64).mapM fun x => pixel s y.val x
    .ok (String.ofList (line.map fun on => if on then '#' else '.'))
  .ok (textOfLines lines)

end Checked

end ChipEight
