import ChipEight.Proofs.Instruction.Decoding
import ChipEight.Proofs.Machine.Counter

namespace ChipEight

/-!
# Arithmetic — the operations on two registers as laws between numbers

The flag and the result of an operation are the two parts of one number: a carry above a sum, or the
bit that a shift moves out above or below the seven that stay; for a difference the flag tells which
of the operands is greater. Both are taken from the operands as they were, and the flag is put in
place last. So when the result goes to the flag register, the flag is all that is left of it.

* `AluOp.Names` — the nibble that names each operation;
* `AluOp.Gives` — the result and the flag of each operation, by numbers;
* `AluOp.gives_result` — they are those of `AluOp.result` and `AluOp.flag?`;
* `Registers.Receives` — where they go;
* `Registers.receives_combine`, `Registers.combine_of_shift` — the registers after an operation;
* `Machine.operation_obeys_laws` — the step of an operation.
-/

namespace AluOp

/-- The operation that the last nibble of a word names. -/
inductive Names : Nibble → AluOp → Prop
  | set : Names 0x0 .set
  | or : Names 0x1 .or
  | and : Names 0x2 .and
  | xor : Names 0x3 .xor
  | add : Names 0x4 .add
  | sub : Names 0x5 .sub
  | shiftRight : Names 0x6 .shiftRight
  | subReverse : Names 0x7 .subReverse
  | shiftLeft : Names 0xE .shiftLeft

theorem Names.ofNibble?_eq {n : Nibble} {op : AluOp} (h : Names n op) :
    ofNibble? n = some op := by
  cases h <;> rfl

/-- What an operation on `a` and `b` gives: its result, and its flag if it reports one. The laws
leave no choice, since a result is below 256 and what a shift to the right moves out is a single
bit. -/
inductive Gives (a b : Nat) : AluOp → Nat → Option Nat → Prop
  | set : Gives a b .set b none
  | or : Gives a b .or (a ||| b) none
  | and : Gives a b .and (a &&& b) none
  | xor : Gives a b .xor (a ^^^ b) none
  | add {v f : Nat} : v < 256 → 256 * f + v = a + b → Gives a b .add v (some f)
  | sub {v : Nat} :
      (v : Int) = ((a : Int) - b) % 256 → Gives a b .sub v (some (if b < a then 1 else 0))
  | shiftRight {v f : Nat} : f < 2 → 2 * v + f = a → Gives a b .shiftRight v (some f)
  | subReverse {v : Nat} :
      (v : Int) = ((b : Int) - a) % 256 → Gives a b .subReverse v (some (if a < b then 1 else 0))
  | shiftLeft {v f : Nat} : v < 256 → 256 * f + v = 2 * a → Gives a b .shiftLeft v (some f)

/-- The number of a flag. -/
theorem toNat_toUInt8_decide (p : Prop) [Decidable p] :
    (decide p).toUInt8.toNat = if p then 1 else 0 := by
  by_cases h : p <;> simp [h, Bool.toUInt8]

/-- Bytes are combined as their numbers are. -/
theorem gives_result (op : AluOp) (a b : UInt8) :
    op.Gives a.toNat b.toNat (op.result a b).toNat
      ((op.flag? a b).map fun c => c.toUInt8.toNat) := by
  have ha := a.toNat_lt
  have hb := b.toNat_lt
  cases op
  case set => exact .set
  case or =>
    rw [result, UInt8.toNat_or]
    exact .or
  case and =>
    rw [result, UInt8.toNat_and]
    exact .and
  case xor =>
    rw [result, UInt8.toNat_xor]
    exact .xor
  case add =>
    rw [flag?, Option.map_some, toNat_toUInt8_decide, result]
    refine .add (UInt8.toNat_lt _) ?_
    rw [UInt8.toNat_add]
    split <;> omega
  case sub =>
    rw [flag?, Option.map_some, toNat_toUInt8_decide]
    refine .sub ?_
    rw [result, UInt8.toNat_sub]
    omega
  case shiftRight =>
    have hhalf : (a >>> 1).toNat = a.toNat / 2 := by simp [Nat.shiftRight_eq_div_pow]
    rw [flag?, Option.map_some, toNat_toUInt8_decide, result, hhalf]
    refine .shiftRight ?_ ?_ <;> split <;> omega
  case subReverse =>
    rw [flag?, Option.map_some, toNat_toUInt8_decide]
    refine .subReverse ?_
    rw [result, UInt8.toNat_sub]
    omega
  case shiftLeft =>
    have hdouble : (a <<< 1).toNat = a.toNat * 2 % 256 := by simp [Nat.shiftLeft_eq]
    rw [flag?, Option.map_some, toNat_toUInt8_decide, result]
    refine .shiftLeft (UInt8.toNat_lt _) ?_
    rw [hdouble]
    split <;> omega

end AluOp

namespace Registers

variable {r : Registers} {op : AluOp} {x : Nibble}

/-- How a result `v` and a flag `f` come into the registers: `s` are the registers after it. -/
structure Receives (x : Nibble) (v : Nat) (f : Option Nat) (r s : Registers) : Prop where
  /-- The result is in its register, unless a flag was put over it. -/
  result : x ≠ flag ∨ f = none → (s.get x).toNat = v
  /-- The flag is in the flag register, wherever the result went. -/
  flag : ∀ b, f = some b → (s.get flag).toNat = b
  /-- Without a flag the flag register is one like the others. -/
  quiet : f = none → x ≠ Registers.flag → s.get Registers.flag = r.get Registers.flag
  /-- No other register is written. -/
  others : ∀ j, j ≠ x → j ≠ Registers.flag → s.get j = r.get j

theorem receives_put (v : UInt8) : Receives x v.toNat none r (r.put x v) where
  result := fun _ => by rw [Bank.get_put_self]
  flag := nofun
  quiet := fun _ hx => Bank.get_put_of_ne hx
  others := fun _ hj _ => Bank.get_put_of_ne hj.symm

/-- A flag is put in place after the result. -/
theorem receives_report (v : UInt8) (c : Bool) :
    Receives x v.toNat (some c.toUInt8.toNat) r (report (r.put x v) c) where
  result := by
    rintro (hx | hnone)
    · rw [get_report_of_ne hx.symm, Bank.get_put_self]
    · cases hnone
  flag := by
    rintro b ⟨⟩
    rw [get_report_flag]
  quiet := nofun
  others := fun _ hj hf => by rw [get_report_of_ne hf.symm, Bank.get_put_of_ne hj.symm]

/-- The registers receive what the operation gives for the operands as they were. -/
theorem receives_combine (op : AluOp) (x y : Nibble) (r : Registers) :
    Receives x (op.result (r.get x) (r.get y)).toNat
      ((op.flag? (r.get x) (r.get y)).map fun c => c.toUInt8.toNat) r (r.combine op x y) := by
  unfold combine
  cases op.flag? (r.get x) (r.get y) with
  | none => exact receives_put _
  | some c => exact receives_report _ c

/-- A shift does not look at the second register. -/
theorem combine_of_shift (hop : op = .shiftRight ∨ op = .shiftLeft) (x y z : Nibble)
    (r : Registers) : r.combine op x y = r.combine op x z := by
  rcases hop with rfl | rfl <;> rfl

end Registers

namespace Machine

variable {m : Machine} {op : AluOp} {x y n : Nibble}

/-- An operation is all that its step does to the registers. -/
theorem step_operation (hn : AluOp.Names n op) (hw : m.fetched = Word.ofNibbles 0x8 x y n) :
    ∃ m', m.step = .ok (.proceeded, m') ∧ m'.registers = m.registers.combine op x y := by
  have hi : Instruction.decode m.fetched = .alu op x y := Word.decode_operation hw hn.ofNibble?_eq
  exact ⟨_, step_of_execute hi rfl, rfl⟩

/-- **Operations obey their laws**, whatever the registers are and whichever of them are named. A
step on a word of group eight whose last nibble names an operation gives result and flag by the laws
of `AluOp.Gives` for the operands as they were. The result goes to the first register, the flag to
the flag register, where it stays also when the result was to go there, and no other register is
written. For a shift any other second register makes no difference. -/
theorem operation_obeys_laws (hn : AluOp.Names n op)
    (hw : m.fetched = Word.ofNibbles 0x8 x y n) :
    ∃ m' v f, m.step = .ok (.proceeded, m')
      ∧ op.Gives (m.registers.get x).toNat (m.registers.get y).toNat v f
      ∧ Registers.Receives x v f m.registers m'.registers
      ∧ (op = .shiftRight ∨ op = .shiftLeft → ∀ (k : Machine) (z : Nibble),
          k.registers = m.registers → k.fetched = Word.ofNibbles 0x8 x z n →
          ∃ k', k.step = .ok (.proceeded, k') ∧ k'.registers = m'.registers) := by
  obtain ⟨m', hs, hm'⟩ := step_operation hn hw
  refine ⟨m', _, _, hs, AluOp.gives_result op _ _, ?_, ?_⟩
  · rw [hm']
    exact Registers.receives_combine op x y m.registers
  · intro hop k z hk hz
    obtain ⟨k', hs', hk'⟩ := step_operation hn hz
    refine ⟨k', hs', ?_⟩
    rw [hk', hm', hk]
    exact Registers.combine_of_shift hop x z y m.registers

/-- The sum of two registers goes to the flag register, and its carry over it. -/
theorem operation_obeys_laws_flagSum :
    ∃ m m' : Machine, m.fetched = Word.ofNibbles 0x8 0xF 0x1 0x4
      ∧ (m.registers.get Registers.flag).toNat = 200 ∧ (m.registers.get 1).toNat = 100
      ∧ m.step = .ok (.proceeded, m')
      ∧ (m'.registers.get Registers.flag).toNat = 1 ∧ (m'.registers.get 1).toNat = 100 := by
  let m : Machine :=
    (((ofSeed 0).put Registers.flag 200).put 1 100).facing (Word.ofNibbles 0x8 0xF 0x1 0x4)
  have hw : m.fetched = Word.ofNibbles 0x8 0xF 0x1 0x4 := fetched_facing _ _
  obtain ⟨m', v, f, hs, hgives, hreceives, -⟩ := operation_obeys_laws .add hw
  have hx : (m.registers.get Registers.flag).toNat = 200 := by decide
  have hy : (m.registers.get 1).toNat = 100 := by decide
  refine ⟨m, m', hw, hx, hy, hs, ?_, ?_⟩
  · -- the carry of 300, not the 44 that is left of it
    have hgives' : AluOp.Gives 200 100 .add v f := by rwa [← hx, ← hy]
    cases hgives' with
    | @add _ f hv hsum =>
      rw [hreceives.flag f rfl]
      omega
  · rw [hreceives.others 1 (by decide) (by decide), hy]

end Machine

end ChipEight
