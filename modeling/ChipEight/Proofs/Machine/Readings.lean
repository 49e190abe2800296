import ChipEight.Machine.Step
import ChipEight.Proofs.Instruction.Assembly
import ChipEight.Proofs.Instruction.Encoding

namespace ChipEight

/-!
# Readings — when two words are the same to a machine

A step records its word and executes the instruction of the word. Nothing else of the word counts
and no instruction looks at the record, so that words with the same instruction do the same but for
the record. Such words differ only in nibbles that decoding does not read. All others are told
apart, by their instructions and by the texts of these.

* `Machine.withWord`, `Machine.execute_withWord` — another word on record;
* `Machine.stepOn`, `Machine.stepOn_of_decode_eq` — a step by its word;
* `Word.eq_of_unknown` — words that are no instructions are all told apart;
* `Word.told_apart` — all of it.
-/

namespace Machine

variable {w v : UInt16}

/-- The machine with another word on record. -/
def withWord (m : Machine) (w : UInt16) : Machine :=
  { m with word := w }

/-- A step with a given word. -/
def stepOn (m : Machine) (w : UInt16) : Except Fault (StepOutcome × Machine) :=
  match { m with word := w, pc := m.pc + 2 }.execute (.decode w) with
  | .ok (outcome, m') => .ok (outcome, m'.countDown)
  | .error f => .error f

/-- A step is one with the word at the counter. -/
theorem step_eq_stepOn (m : Machine) : m.step = m.stepOn m.fetched := rfl

/-- No instruction looks at the word on record. -/
theorem execute_withWord (m : Machine) (i : Instruction) (w : UInt16) :
    (m.withWord w).execute i = (m.execute i).map (Prod.map id (withWord · w)) := by
  cases i
  case ret =>
    simp only [execute, show (m.withWord w).stack = m.stack from rfl]
    cases m.stack.pop? <;> rfl
  case call a =>
    simp only [execute, show (m.withWord w).stack = m.stack from rfl,
      show (m.withWord w).pc = m.pc from rfl]
    cases m.stack.push? m.pc <;> rfl
  case awaitKey x =>
    simp only [execute, show (m.withWord w).keypad = m.keypad from rfl]
    cases m.keypad.firstDown <;> rfl
  all_goals rfl

/-- Words with the same instruction have the same effect, but for the word on record. -/
theorem stepOn_of_decode_eq (m : Machine) (h : Instruction.decode w = Instruction.decode v) :
    m.stepOn v = (m.stepOn w).map (Prod.map id (withWord · v)) := by
  have hrecord : { m with word := v, pc := m.pc + 2 }
      = withWord { m with word := w, pc := m.pc + 2 } v := rfl
  rw [stepOn, stepOn, hrecord, ← h, execute_withWord]
  cases execute { m with word := w, pc := m.pc + 2 } (.decode w) <;> rfl

end Machine

namespace Word

variable {w v u : UInt16}

/-- A word that is no instruction has no nibble that is not read. -/
theorem eq_of_unknown (hw : Instruction.decode w = .unknown u)
    (h : Instruction.decode w = Instruction.decode v) : w = v := by
  have holds : ∀ {a b : UInt16}, Instruction.decode a = .unknown b → a = b := by
    intro a b ha
    cases decode_eq_iff.1 ha <;> rfl
  rw [holds hw, holds (h.symm.trans hw)]

/-- **What tells words apart**: no two instructions have the same mnemonic. Two words have the same
instruction, and the same mnemonic, when they differ at most in nibbles that decoding does not read:
those in the middle of a blank of the screen or a return, and the last one of a comparison of two
registers. Such words have the same effect on every machine, but for the word on record. Two
different words that are no instructions are always told apart. -/
theorem told_apart :
    (∀ i j : Instruction, i.mnemonic = j.mnemonic ↔ i = j)
      ∧ (∀ w v : UInt16, (Instruction.decode w = Instruction.decode v ↔ Alike w v)
        ∧ ((Instruction.decode w).mnemonic = (Instruction.decode v).mnemonic ↔ Alike w v))
      ∧ (∀ m : Machine, m.step = m.stepOn m.fetched)
      ∧ (∀ w v : UInt16, Alike w v → ∀ m : Machine,
        m.stepOn v = (m.stepOn w).map (Prod.map id (Machine.withWord · v)))
      ∧ ∀ w v u : UInt16, Instruction.decode w = .unknown u → Alike w v → w = v := by
  refine ⟨fun i j => Instruction.mnemonic_inj, fun w v => ⟨decode_eq_decode_iff, ?_⟩,
    Machine.step_eq_stepOn, fun w v h m => ?_, fun w v u hw h => ?_⟩
  · rw [Instruction.mnemonic_inj, decode_eq_decode_iff]
  · exact Machine.stepOn_of_decode_eq m h.decode_eq
  · exact eq_of_unknown hw h.decode_eq

/-- Two spellings of one comparison, and two words that are no instructions. -/
theorem told_apart_lastNibble :
    Alike 0x5340 0x5347 ∧ Instruction.decode 0x5340 = Instruction.decode 0x5347
      ∧ (Instruction.decode 0x5340).mnemonic = (Instruction.decode 0x5347).mnemonic
      ∧ (Machine.ofSeed 0).stepOn 0x5347
        = ((Machine.ofSeed 0).stepOn 0x5340).map (Prod.map id (Machine.withWord · 0x5347))
      ∧ Instruction.decode 0x0123 = .unknown 0x0123 ∧ ¬ Alike 0x0123 0x0124 := by
  have halike : Alike 0x5340 0x5347 := .equality rfl rfl rfl
  have hunknown : Instruction.decode 0x0123 = .unknown 0x0123 := rfl
  obtain ⟨-, hkernel, -, heffect, hno⟩ := told_apart
  refine ⟨halike, (hkernel _ _).1.2 halike, (hkernel _ _).2.2 halike, heffect _ _ halike _,
    hunknown, fun h => ?_⟩
  exact absurd (hno _ _ _ hunknown h) (by decide)

end Word

end ChipEight
