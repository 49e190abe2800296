import ChipEight.Proofs.Machine.Turns

namespace ChipEight

/-!
# Footprints — what of the machine an instruction can write

The footprint of an instruction is told part by part: the registers, the bytes from the index on,
the timer that it starts, and whether it moves the index, draws, or takes a random byte. Whatever is
not in the footprint of the word at the program counter is after the step what it was before.

* `Timer`, `Machine.timer`, `Instruction.starts?` — the timers, and the register that one is started
  from;
* `Instruction.writesRegister`, `Instruction.bytesWritten`, `Instruction.movesIndex`,
  `Instruction.draws`, `Instruction.takesRandom` — the footprint;
* `registers_of_execute`, `memory_of_execute`, `timer_of_execute`, `index_of_execute`,
  `picture_of_execute`, `slots_of_execute` — one part each, for one instruction;
* `Executed.Framed`, `Executed.framed` — all of it, for a step;
* `Executed.WritesByte`, `Executed.writesByte_of_ne` — the bytes that a step writes.
-/

/-! ### Timers -/

/-- One of the two timers. -/
inductive Timer where
  /-- The timer that programs can read. -/
  | delay
  /-- The timer that makes the machine beep. -/
  | sound
deriving DecidableEq, Repr

/-- What a timer stands at. -/
def Machine.timer (m : Machine) : Timer → UInt8
  | .delay => m.delay
  | .sound => m.sound

/-- The register that an instruction starts a timer from. -/
def Instruction.starts? (t : Timer) (i : Instruction) : Option Nibble :=
  match t, i with
  | .delay, .startDelay x => some x
  | .sound, .startSound x => some x
  | _, _ => none

/-! ### The footprint of an instruction -/

/-- Whether an operation on two registers reports a flag. -/
def AluOp.reports : AluOp → Bool
  | .set | .or | .and | .xor => false
  | .add | .sub | .shiftRight | .subReverse | .shiftLeft => true

namespace Instruction

/-- Whether an instruction writes the register `r`; `p` tells whether a key is down to be waited
for. -/
def writesRegister (p : Keypad) (r : Nibble) : Instruction → Bool
  | .set x _ | .add x _ | .random x _ | .readDelay x => decide (r = x)
  | .alu op x _ => decide (r = x) || (op.reports && decide (r = Registers.flag))
  | .awaitKey x => p.firstDown.isSome && decide (r = x)
  | .load x => decide (r ≤ x)
  | .draw .. | .decimal _ => decide (r = Registers.flag)
  | _ => false

/-- How many bytes an instruction writes, from the index on. -/
def bytesWritten : Instruction → Nat
  | .decimal _ => 3
  | .store x => x.val + 1
  | _ => 0

/-- Whether an instruction moves the index. -/
def movesIndex : Instruction → Bool
  | .setIndex _ | .addIndex _ | .glyph _ => true
  | _ => false

/-- Whether an instruction draws on the screen. -/
def draws : Instruction → Bool
  | .clear | .draw .. => true
  | _ => false

/-- Whether an instruction takes a random byte. -/
def takesRandom : Instruction → Bool
  | .random .. => true
  | _ => false

/-- Two instructions write to memory. -/
theorem eq_of_bytesWritten_pos {i : Instruction} (h : 0 < i.bytesWritten) :
    ∃ x, i = .decimal x ∨ i = .store x := by
  cases i
  case decimal x => exact ⟨x, .inl rfl⟩
  case store x => exact ⟨x, .inr rfl⟩
  all_goals exact absurd h (Nat.lt_irrefl 0)

end Instruction

/-! ### Places next to those that are written -/

namespace CallStack

variable {s t : CallStack} {a : UInt16} {j : Fin 16}

theorem slots_of_push? (h : s.push? a = some t) (hj : j.val ≠ s.depth) :
    t.slots.get j = s.slots.get j := by
  unfold push? at h
  split at h
  case isTrue hd =>
    cases h
    exact Vector.getElem_set_ne hd j.isLt (Ne.symm hj)
  case isFalse => cases h

theorem slots_of_pop? (h : s.pop? = some (a, t)) : t.slots = s.slots := by
  unfold pop? at h
  split at h
  case isTrue => cases h
  case isFalse => cases h; rfl

end CallStack

/-- One byte on and then `k` more is `k + 1` bytes on. -/
theorem Memory.add_one_add_ofNat (a : UInt16) (k : Nat) :
    a + 1 + UInt16.ofNat k = a + UInt16.ofNat (k + 1) := by
  apply UInt16.toNat_inj.1
  simp only [UInt16.toNat_add, UInt16.toNat_ofNat', UInt16.toNat_one]
  omega

/-- A byte that is not among those that a list is written to stays as it is. -/
theorem Memory.read_writeList_of_ne {m : Memory} {a c : UInt16} {bs : List UInt8}
    (h : ∀ k < bs.length, slot (a + UInt16.ofNat k) ≠ slot c) :
    (m.writeList a bs).read c = m.read c := by
  induction bs generalizing m a with
  | nil => rfl
  | cons b bs ih =>
    have hfirst : slot a ≠ slot c := by
      have h0 := h 0 (Nat.zero_lt_succ _)
      rwa [show a + UInt16.ofNat 0 = a from UInt16.add_zero a] at h0
    have hrest : ∀ k < bs.length, slot (a + 1 + UInt16.ofNat k) ≠ slot c := by
      intro k hk
      rw [add_one_add_ofNat]
      exact h (k + 1) (Nat.succ_lt_succ hk)
    rw [writeList_cons, ih hrest, read_write hfirst]

/-- An operation on two registers writes the first of them, and the flag register if it reports a
flag. -/
theorem Registers.get_combine_of_ne {r : Registers} {op : AluOp} {x y j : Nibble} (hx : x ≠ j)
    (hf : op.reports = true → flag ≠ j) : (r.combine op x y).get j = r.get j := by
  unfold combine
  split
  case h_1 b hb =>
    have hreports : op.reports = true := by
      cases op <;> first | rfl | cases hb
    rw [get_report_of_ne (hf hreports), Bank.get_put_of_ne hx]
  case h_2 => exact Bank.get_put_of_ne hx

namespace Machine

variable {m m' : Machine} {i : Instruction} {outcome : StepOutcome}

/-! ### One instruction -/

/-- A register that an instruction does not write stays as it is. -/
theorem registers_of_execute {r : Nibble} (h : m.execute i = .ok (outcome, m'))
    (hr : i.writesRegister m.keypad r = false) : m'.registers.get r = m.registers.get r := by
  cases i
  case ret => simp only [execute] at h; split at h <;> cases h; rfl
  case call a => simp only [execute] at h; split at h <;> cases h; rfl
  -- the flag register
  case draw x y n => cases h; exact Registers.get_report_of_ne (Ne.symm (of_decide_eq_false hr))
  case decimal x => cases h; exact Registers.get_report_of_ne (Ne.symm (of_decide_eq_false hr))
  -- one register
  case set x b => cases h; exact Bank.get_put_of_ne (Ne.symm (of_decide_eq_false hr))
  case add x b => cases h; exact Bank.get_put_of_ne (Ne.symm (of_decide_eq_false hr))
  case random x b => cases h; exact Bank.get_put_of_ne (Ne.symm (of_decide_eq_false hr))
  case readDelay x => cases h; exact Bank.get_put_of_ne (Ne.symm (of_decide_eq_false hr))
  case awaitKey x =>
    simp only [execute] at h
    split at h
    case h_1 k hk =>
      cases h
      have hne : ¬ r = x := by simpa [Instruction.writesRegister, hk] using hr
      exact Bank.get_put_of_ne (Ne.symm hne)
    case h_2 => cases h; rfl
  -- one register and the flag register
  case alu op x y =>
    cases h
    obtain ⟨hx, hf⟩ := Bool.or_eq_false_iff.1 hr
    refine Registers.get_combine_of_ne (Ne.symm (of_decide_eq_false hx)) fun hreports => ?_
    rw [hreports, Bool.true_and] at hf
    exact Ne.symm (of_decide_eq_false hf)
  -- the registers up to one
  case load x =>
    cases h
    have hlt : ¬ r.val ≤ x.val := of_decide_eq_false hr
    show (loadRegisters m x).registers.get r = _
    simp [loadRegisters, Bank.get, hlt]
  all_goals (cases h; rfl)

/-- A byte that an instruction does not write stays as it is. -/
theorem memory_of_execute {a : UInt16} (h : m.execute i = .ok (outcome, m'))
    (ha : ∀ k < i.bytesWritten, Memory.slot (m.index + UInt16.ofNat k) ≠ Memory.slot a) :
    m'.memory.read a = m.memory.read a := by
  cases i
  case ret => simp only [execute] at h; split at h <;> cases h; rfl
  case call a => simp only [execute] at h; split at h <;> cases h; rfl
  case awaitKey x => simp only [execute] at h; split at h <;> cases h <;> rfl
  case decimal x => cases h; exact Memory.read_writeList_of_ne ha
  case store x =>
    cases h
    refine Memory.read_writeList_of_ne fun k hk => ha k ?_
    exact Nat.lt_of_lt_of_le hk (List.length_take_le _ _)
  all_goals (cases h; rfl)

/-- A timer that an instruction does not start stays as it is. -/
theorem timer_of_execute (h : m.execute i = .ok (outcome, m')) (t : Timer) :
    m'.timer t = (i.starts? t).elim (m.timer t) m.registers.get := by
  cases i
  case ret => simp only [execute] at h; split at h <;> cases h; cases t <;> rfl
  case call a => simp only [execute] at h; split at h <;> cases h; cases t <;> rfl
  case awaitKey x => simp only [execute] at h; split at h <;> cases h <;> cases t <;> rfl
  all_goals (cases h; cases t <;> rfl)

/-- An index that an instruction does not move stays where it is. -/
theorem index_of_execute (h : m.execute i = .ok (outcome, m')) (hi : i.movesIndex = false) :
    m'.index = m.index := by
  cases i
  case ret => simp only [execute] at h; split at h <;> cases h; rfl
  case call a => simp only [execute] at h; split at h <;> cases h; rfl
  case awaitKey x => simp only [execute] at h; split at h <;> cases h <;> rfl
  all_goals first | (cases h; rfl) | cases hi

/-- The instructions that draw, and no others, are said to have drawn. -/
theorem drew_of_execute (h : m.execute i = .ok (outcome, m')) :
    outcome = .drew ↔ i.draws = true := by
  cases i
  case ret => simp only [execute] at h; split at h <;> cases h; simp [Instruction.draws]
  case call a => simp only [execute] at h; split at h <;> cases h; simp [Instruction.draws]
  case awaitKey x => simp only [execute] at h; split at h <;> cases h <;> simp [Instruction.draws]
  all_goals (cases h; simp [Instruction.draws])

/-- An instruction that does not draw leaves the screen and the draw flag as they are. -/
theorem picture_of_execute (h : m.execute i = .ok (outcome, m')) (hi : i.draws = false) :
    m'.screen = m.screen ∧ m'.drawFlag = m.drawFlag := by
  cases i
  case ret => simp only [execute] at h; split at h <;> cases h; exact ⟨rfl, rfl⟩
  case call a => simp only [execute] at h; split at h <;> cases h; exact ⟨rfl, rfl⟩
  case awaitKey x => simp only [execute] at h; split at h <;> cases h <;> exact ⟨rfl, rfl⟩
  case clear => cases hi
  case draw x y n => cases hi
  all_goals (cases h; exact ⟨rfl, rfl⟩)

/-- A call writes the first free slot of the stack, and no other instruction writes any. -/
theorem slots_of_execute {j : Fin 16} (h : m.execute i = .ok (outcome, m'))
    (hj : (∃ a, i = .call a) → j.val ≠ m.stack.depth) :
    m'.stack.slots.get j = m.stack.slots.get j := by
  by_cases hcall : ∃ a, i = .call a
  · obtain ⟨a, rfl⟩ := hcall
    exact CallStack.slots_of_push? (push?_of_execute h).1 (hj ⟨a, rfl⟩)
  · by_cases hret : i = .ret
    · subst hret
      rw [CallStack.slots_of_pop? (pop?_of_execute h)]
    · rw [stack_of_execute h (fun a ha => hcall ⟨a, ha⟩) hret]

/-- A word that is no instruction is passed over, and waiting for a key that is not down moves the
program counter back; neither reaches anything else. -/
theorem idle_of_execute (h : m.execute i = .ok (outcome, m'))
    (hi : (∃ w, i = .unknown w) ∨ (∃ x, i = .awaitKey x) ∧ m.keypad.firstDown = none) :
    m' = { m with pc := m'.pc } := by
  rcases hi with ⟨w, rfl⟩ | ⟨⟨x, rfl⟩, hup⟩
  · cases h
    rfl
  · simp only [execute, hup] at h
    cases h
    rfl

end Machine

/-! ### A whole step -/

namespace Executed

/-- Whether a step writes the byte that an address names. -/
def WritesByte (e : Executed) (a : UInt16) : Prop :=
  ∃ k < e.instruction.bytesWritten,
    Memory.slot (e.before.index + UInt16.ofNat k) = Memory.slot a

/-- A step takes up its word and counts both timers down; whatever else differs after the step is in
the footprint of its instruction. -/
structure Framed (e : Executed) : Prop where
  /-- The word of the step is at hand. -/
  word : e.after.word = e.before.fetched
  /-- A timer is one count below what it stood at, or below what it was started from. -/
  timers : ∀ t, e.after.timer t
    = Machine.counted ((e.instruction.starts? t).elim (e.before.timer t) e.before.registers.get)
  /-- Registers are written by the instructions that name them. -/
  registers : ∀ r, e.instruction.writesRegister e.before.keypad r = false →
    e.after.registers.get r = e.before.registers.get r
  /-- The index is moved by three instructions. -/
  index : e.instruction.movesIndex = false → e.after.index = e.before.index
  /-- A call takes the first free slot. -/
  call : (∃ a, e.instruction = .call a) → e.after.stack.depth = e.before.stack.depth + 1
  /-- A return gives the newest slot back. -/
  ret : e.instruction = .ret → e.before.stack.depth = e.after.stack.depth + 1
  /-- No slot is written but by a call, which writes the one that it takes. -/
  slots : ∀ j : Fin 16, ((∃ a, e.instruction = .call a) → j.val ≠ e.before.stack.depth) →
    e.after.stack.slots.get j = e.before.stack.slots.get j
  /-- Nothing else reaches the stack. -/
  stack : (∀ a, e.instruction ≠ .call a) → e.instruction ≠ .ret → e.after.stack = e.before.stack
  /-- Bytes are written from the index on, around the top of the memory. -/
  bytes : ∀ a, ¬ e.WritesByte a → e.after.memory.read a = e.before.memory.read a
  /-- A step draws if its instruction does. -/
  drew : e.outcome = .drew ↔ e.instruction.draws = true
  /-- Only drawing reaches the screen and the draw flag. -/
  picture : e.instruction.draws = false →
    e.after.screen = e.before.screen ∧ e.after.drawFlag = e.before.drawFlag
  /-- One instruction takes a random byte. -/
  random : e.instruction.takesRandom = false → e.after.random = e.before.random
  /-- The keys, the switch and the size of the program are the host's. -/
  fixed : e.after.keypad = e.before.keypad ∧ e.after.running = e.before.running
    ∧ e.after.programSize = e.before.programSize
  /-- A word that is no instruction, or that waits for a key in vain, leaves everything but the
  program counter and the timers as it is. -/
  idle : (∃ w, e.instruction = .unknown w)
      ∨ (∃ x, e.instruction = .awaitKey x) ∧ e.before.keypad.firstDown = none →
    e.after = { e.before with
      word := e.before.fetched
      pc := e.after.pc
      delay := Machine.counted e.before.delay
      sound := Machine.counted e.before.sound }

/-- Every step keeps to its footprint. -/
theorem framed {e : Executed} (h : e.before.step = .ok (e.outcome, e.after)) : e.Framed := by
  obtain ⟨m, outcome, m'⟩ := e
  obtain ⟨m₁, he, rfl⟩ := Machine.step_eq_ok_iff.1 h
  -- fetching reaches the counter and the word, and counting the timers: the rest is the instruction
  obtain ⟨hsize, hkeys, hrunning, hword⟩ := Machine.execute_fixed he
  have htimers := Machine.timer_of_execute he
  have hregisters := fun r => Machine.registers_of_execute (r := r) he
  have hindex := Machine.index_of_execute he
  have hslots := fun j => Machine.slots_of_execute (j := j) he
  have hstack := Machine.stack_of_execute he
  have hbytes := fun a => Machine.memory_of_execute (a := a) he
  have hpicture := Machine.picture_of_execute he
  have hrandom := Machine.random_of_execute he
  have hidle := Machine.idle_of_execute he
  exact {
    word := hword
    timers := by
      intro t
      have hcount : m₁.countDown.timer t = Machine.counted (m₁.timer t) := by cases t <;> rfl
      show m₁.countDown.timer t = _
      rw [hcount, htimers t]
      cases t <;> rfl
    registers := hregisters
    index := hindex
    call := by
      rintro ⟨a, ha⟩
      exact (Machine.toList_of_step_call h ha).2.1
    ret := by
      intro hret
      rw [show Instruction.decode m.fetched = .ret from hret] at he
      have hpop := Machine.pop?_of_execute he
      exact CallStack.depth_of_pop? hpop
    slots := hslots
    stack := hstack
    bytes := fun a ha => hbytes a fun k hk hslot => ha ⟨k, hk, hslot⟩
    drew := Machine.drew_of_execute he
    picture := hpicture
    random := by
      intro hr
      apply hrandom
      intro x mask hx
      rw [show Executed.instruction ⟨m, outcome, m₁.countDown⟩ = .random x mask from hx] at hr
      cases hr
    fixed := ⟨hkeys, hrunning, hsize⟩
    idle := by
      intro hi
      show m₁.countDown = _
      rw [hidle hi]
      rfl }

/-- A byte that a step changes is written by one of the two instructions that write to memory. -/
theorem writesByte_of_ne {e : Executed} {a : UInt16} (h : e.before.step = .ok (e.outcome, e.after))
    (hne : e.after.memory.read a ≠ e.before.memory.read a) :
    (∃ x, e.instruction = .decimal x ∨ e.instruction = .store x) ∧ e.WritesByte a := by
  have hwrites : e.WritesByte a := Classical.byContradiction fun hw => hne ((framed h).bytes a hw)
  obtain ⟨k, hk, hslot⟩ := hwrites
  exact ⟨Instruction.eq_of_bytesWritten_pos (Nat.zero_lt_of_lt hk), k, hk, hslot⟩

end Executed

end ChipEight
