import ChipEight.Instruction.Decode
import ChipEight.Machine.Alu
import ChipEight.Machine.Basic

namespace ChipEight

/-!
# Steps — fetching a word and executing its instruction

A step reads the word at the program counter, moves the counter past it, executes the instruction of
the word and then counts both timers down once.

* `StepOutcome` — what a step came to, as far as the host is concerned;
* `Machine.fetched`, `Machine.fetch` — the word at the program counter, and the machine past it;
* `Machine.execute` — one instruction, with the counter past its word already;
* `Machine.step` — the whole step.

Faults come from the call stack alone: a return without a call and a call with every slot taken.
-/

/-- What a step came to. -/
inductive StepOutcome where
  /-- The instruction was executed and drew nothing. -/
  | proceeded
  /-- The instruction drew on the screen. -/
  | drew
  /-- The instruction waits for a key and will be executed again. -/
  | waiting
  /-- The word is no instruction and was passed over. -/
  | unknown (word : UInt16)
deriving DecidableEq, Repr

namespace Machine

/-- The word at the program counter. -/
def fetched (m : Machine) : UInt16 :=
  m.memory.word m.pc

/-- The machine with the word at the program counter taken up. -/
def fetch (m : Machine) : Machine :=
  { m with word := m.fetched, pc := m.pc + 2 }

/-- The machine with the next word skipped if a condition holds. -/
def skipIf (m : Machine) (c : Bool) : Machine :=
  { m with pc := if c then m.pc + 2 else m.pc }

/-- The machine with a byte in a register. -/
def put (m : Machine) (x : Nibble) (b : UInt8) : Machine :=
  { m with registers := m.registers.put x b }

/-- The machine after drawing the sprite of `n` bytes at the index. The origin wraps onto the screen
and what runs past the right or bottom edge is cut off. The flag tells whether a pixel was unset. -/
def draw (m : Machine) (x y n : Nibble) : Machine :=
  let picture := Screen.sprite ((m.registers.get x).toNat % 64) ((m.registers.get y).toNat % 32)
    (m.memory.readList m.index n.val)
  { m with
    screen := m.screen.xor picture
    registers := m.registers.report (m.screen.overlaps picture)
    drawFlag := true }

/-- The three decimal digits of a byte, hundreds first. -/
def decimalDigits (b : UInt8) : List UInt8 :=
  [b / 100, b / 10 % 10, b % 10]

/-- The machine after writing the decimal digits of a register. The flag tells whether the last of
them has an address past the top of the memory. -/
def writeDecimal (m : Machine) (x : Nibble) : Machine :=
  { m with
    memory := m.memory.writeList m.index (decimalDigits (m.registers.get x))
    registers := m.registers.report (decide (0xFFF < m.index.toNat + 2)) }

/-- The machine after writing the registers up to `x` to memory. -/
def storeRegisters (m : Machine) (x : Nibble) : Machine :=
  { m with memory := m.memory.writeList m.index (m.registers.toList.take (x.val + 1)) }

/-- The machine after reading the registers up to `x` from memory. -/
def loadRegisters (m : Machine) (x : Nibble) : Machine :=
  { m with
    registers := m.registers.mapFinIdx fun i b _ =>
      if i ≤ x.val then m.memory.read (m.index + UInt16.ofNat i) else b }

/-- Executes an instruction; the program counter is past its word already. -/
def execute (m : Machine) : Instruction → Except Fault (StepOutcome × Machine)
  | .clear => .ok (.drew, { m with screen := .blank, drawFlag := true })
  | .ret =>
    match m.stack.pop? with
    | some (a, s) => .ok (.proceeded, { m with pc := a, stack := s })
    | none => .error .returnWithoutCall
  | .jump a => .ok (.proceeded, { m with pc := a })
  | .jumpOffset a =>
    .ok (.proceeded, { m with pc := a + (m.registers.get Registers.offset).toUInt16 })
  | .call a =>
    match m.stack.push? m.pc with
    | some s => .ok (.proceeded, { m with pc := a, stack := s })
    | none => .error .callTooDeep
  | .skipEqual x b => .ok (.proceeded, m.skipIf (m.registers.get x == b))
  | .skipUnequal x b => .ok (.proceeded, m.skipIf (m.registers.get x != b))
  | .skipSame x y => .ok (.proceeded, m.skipIf (m.registers.get x == m.registers.get y))
  | .skipDifferent x y => .ok (.proceeded, m.skipIf (m.registers.get x != m.registers.get y))
  | .set x b => .ok (.proceeded, m.put x b)
  | .add x b => .ok (.proceeded, m.put x (m.registers.get x + b))
  | .alu op x y => .ok (.proceeded, { m with registers := m.registers.combine op x y })
  | .random x mask =>
    .ok (.proceeded, { m.put x (m.random.next.1 &&& mask) with random := m.random.next.2 })
  | .setIndex a => .ok (.proceeded, { m with index := a })
  | .addIndex x => .ok (.proceeded, { m with index := m.index + (m.registers.get x).toUInt16 })
  | .draw x y n => .ok (.drew, m.draw x y n)
  | .skipKeyDown x => .ok (.proceeded, m.skipIf (m.keypad.isDown (m.registers.get x)))
  | .skipKeyUp x => .ok (.proceeded, m.skipIf (!m.keypad.isDown (m.registers.get x)))
  | .awaitKey x =>
    match m.keypad.firstDown with
    | some k => .ok (.proceeded, m.put x (Nibble.toByte k))
    | none => .ok (.waiting, { m with pc := m.pc - 2 })
  | .readDelay x => .ok (.proceeded, m.put x m.delay)
  | .startDelay x => .ok (.proceeded, { m with delay := m.registers.get x })
  | .startSound x => .ok (.proceeded, { m with sound := m.registers.get x })
  | .glyph x => .ok (.proceeded, { m with index := Glyph.address (m.registers.get x) })
  | .decimal x => .ok (.proceeded, m.writeDecimal x)
  | .store x => .ok (.proceeded, m.storeRegisters x)
  | .load x => .ok (.proceeded, m.loadRegisters x)
  | .unknown w => .ok (.unknown w, m)

/-- Fetches a word, executes its instruction and counts the timers down. -/
def step (m : Machine) : Except Fault (StepOutcome × Machine) :=
  match m.fetch.execute (.decode m.fetched) with
  | .ok (outcome, m') => .ok (outcome, m'.countDown)
  | .error f => .error f

end Machine

end ChipEight
