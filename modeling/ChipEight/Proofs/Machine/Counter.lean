import ChipEight.Proofs.Machine.Effects

namespace ChipEight

/-!
# The counter — where a step leaves it

A step takes the counter past its word before the instruction is executed. A jump, a call and a
return put another address there, a wait takes the two bytes back, a skip whose condition holds adds
two more, and everything else leaves it where the fetch left it.

* `Instruction.jumps`, `Machine.skips`, `Machine.waits` — the instructions that do not simply go on;
* `Machine.Continues`, `Machine.continues_of_step` — where a step leaves the counter;
* `Machine.skipTest?`, `Machine.step_of_skipTest?` — the whole step of a skip;
* `Machine.facing`, `Machine.fetched_facing` — the machine with a given word at its counter;
* `Instruction.Opposed`, `Machine.skipTest?_of_opposed` — the pairs of skips on opposite conditions.
-/

/-- Whether an instruction puts an address of its own into the counter. -/
def Instruction.jumps : Instruction → Bool
  | .ret | .jump _ | .jumpOffset _ | .call _ => true
  | _ => false

/-- Two instructions that skip on opposite conditions. -/
inductive Instruction.Opposed : Instruction → Instruction → Prop
  | immediate (x : Nibble) (b : UInt8) : Opposed (.skipEqual x b) (.skipUnequal x b)
  | registers (x y : Nibble) : Opposed (.skipSame x y) (.skipDifferent x y)
  | keys (x : Nibble) : Opposed (.skipKeyDown x) (.skipKeyUp x)

namespace Machine

/-! ### What an instruction asks of the machine -/

/-- The condition of a skip, with its value on the registers and the keys. -/
def skipTest? (m : Machine) : Instruction → Option Bool
  | .skipEqual x b => some (m.registers.get x == b)
  | .skipUnequal x b => some (m.registers.get x != b)
  | .skipSame x y => some (m.registers.get x == m.registers.get y)
  | .skipDifferent x y => some (m.registers.get x != m.registers.get y)
  | .skipKeyDown x => some (m.keypad.isDown (m.registers.get x))
  | .skipKeyUp x => some (!m.keypad.isDown (m.registers.get x))
  | _ => none

/-- Whether an instruction skips the next word. -/
def skips (m : Machine) (i : Instruction) : Bool :=
  m.skipTest? i == some true

/-- Whether an instruction waits for a key. -/
def waits (m : Machine) : Instruction → Bool
  | .awaitKey _ => m.keypad.firstDown.isNone
  | _ => false

/-- Where a machine goes on after an instruction. -/
inductive Continues (m : Machine) : Instruction → UInt16 → Prop
  /-- At the target of a jump. -/
  | jump (a : UInt16) : Continues m (.jump a) a
  /-- At the target of a call. -/
  | call (a : UInt16) : Continues m (.call a) a
  /-- At the base of an offset jump, register zero further on. -/
  | offset (a : UInt16) :
      Continues m (.jumpOffset a) (a + (m.registers.get Registers.offset).toUInt16)
  /-- At the newest return address. -/
  | ret {rest : List UInt16} {a : UInt16} : m.stack.toList = rest ++ [a] → Continues m .ret a
  /-- At the same word, while a key is waited for. -/
  | wait {i : Instruction} : m.waits i = true → Continues m i m.pc
  /-- After the next word, when that is skipped. -/
  | skip {i : Instruction} : m.skips i = true → Continues m i (m.pc + 4)
  /-- At the next word. -/
  | next {i : Instruction} :
      i.jumps = false → m.waits i = false → m.skips i = false → Continues m i (m.pc + 2)

variable {m m' : Machine} {i j : Instruction} {outcome : StepOutcome} {c : Bool}

/-! ### The counter after a step -/

theorem skips_of_skipTest? (h : m.skipTest? i = some c) : m.skips i = c := by
  rw [skips, h]
  cases c <;> rfl

/-- A skip does nothing but add two to the counter if its condition holds. -/
theorem step_of_skipTest? (hi : m.skipTest? (.decode m.fetched) = some c) :
    m.step = .ok (.proceeded, (m.fetch.skipIf c).countDown) := by
  refine step_eq_ok_iff.2 ⟨m.fetch.skipIf c, ?_, rfl⟩
  cases hd : Instruction.decode m.fetched
  all_goals
    rw [hd] at hi
    cases hi
  all_goals rfl

theorem pc_skipIf_fetch (m : Machine) (c : Bool) :
    (m.fetch.skipIf c).pc = if c then m.pc + 4 else m.pc + 2 := by
  cases c
  · rfl
  · show m.pc + 2 + 2 = m.pc + 4
    rw [UInt16.add_assoc]
    rfl

/-- A skip goes on at the next word or at the one after it. -/
theorem continues_of_skipTest? (h : m.skipTest? i = some c) (hj : i.jumps = false)
    (hw : m.waits i = false) : m.Continues i (m.fetch.skipIf c).pc := by
  have hs := skips_of_skipTest? h
  rw [pc_skipIf_fetch]
  cases c with
  | false => exact .next hj hw hs
  | true => exact .skip hs

/-- A step leaves the counter where its instruction goes on. -/
theorem continues_of_step (h : m.step = .ok (outcome, m')) (hd : m.stack.depth ≤ 16) :
    m.Continues (.decode m.fetched) m'.pc := by
  obtain ⟨m₁, he, rfl⟩ := step_eq_ok_iff.1 h
  cases hi : Instruction.decode m.fetched
  all_goals rw [hi] at he
  case ret => exact .ret (toList_of_step_ret h hi hd).1
  case jump a => cases he; exact .jump a
  case jumpOffset a => cases he; exact .offset a
  case call a =>
    have hpc : m₁.countDown.pc = a := (push?_of_execute he).2
    exact hpc.symm ▸ .call a
  case awaitKey x =>
    simp only [execute] at he
    split at he
    case h_1 k hk =>
      have hk' : m.keypad.firstDown = some k := hk
      cases he
      exact .next rfl (by simp [waits, hk']) rfl
    case h_2 hk =>
      have hk' : m.keypad.firstDown = none := hk
      cases he
      have hback : m.pc + 2 - 2 = m.pc := UInt16.add_sub_cancel m.pc 2
      exact hback.symm ▸ .wait (by simp [waits, hk'])
  case skipEqual | skipUnequal | skipSame | skipDifferent | skipKeyDown | skipKeyUp =>
    cases he
    exact continues_of_skipTest? rfl rfl rfl
  all_goals (cases he; exact .next rfl rfl rfl)

/-! ### A word at the counter -/

/-- The machine with a word written where its counter points. -/
def facing (m : Machine) (w : UInt16) : Machine :=
  { m with
    memory := m.memory.writeList m.pc [UInt8.ofNat (w.toNat / 256), UInt8.ofNat (w.toNat % 256)] }

/-- The two bytes of a word have different places, so that the whole word is read back. -/
theorem fetched_facing (m : Machine) (w : UInt16) : (m.facing w).fetched = w := by
  have hne : Memory.slot (m.pc + 1) ≠ Memory.slot m.pc := by
    rw [Ne, Memory.slot_eq_iff, UInt16.toNat_add, UInt16.toNat_one]
    omega
  have hmem : (m.facing w).memory
      = (m.memory.write m.pc (UInt8.ofNat (w.toNat / 256))).write (m.pc + 1)
        (UInt8.ofNat (w.toNat % 256)) := rfl
  have hw := w.toNat_lt
  show Memory.word (m.facing w).memory m.pc = w
  apply UInt16.toNat_inj.1
  rw [Memory.word, hmem, Memory.read_write hne, Memory.read_write_self, Memory.read_write_self]
  simp only [UInt16.toNat_ofNat', UInt8.toNat_ofNat']
  omega

/-! ### Opposed skips -/

/-- The conditions of two opposed skips have opposite values. -/
theorem skipTest?_of_opposed (m : Machine) (h : i.Opposed j) :
    ∃ c, m.skipTest? i = some c ∧ m.skipTest? j = some (!c) := by
  cases h with
  | immediate x b => exact ⟨_, rfl, rfl⟩
  | registers x y => exact ⟨_, rfl, rfl⟩
  | keys x => exact ⟨_, rfl, rfl⟩

end Machine

end ChipEight
