import ChipEight.Instruction.Basic
import ChipEight.Machine.Registers

namespace ChipEight

/-!
# Arithmetic — two registers combined into the first

Result and flag are both taken from the operands as they were. The flag is written after the result,
so that it is what stays when the result goes to the flag register itself.

* `AluOp.result` — the byte for the first register;
* `AluOp.flag?` — the flag, for the operations that report one;
* `Registers.combine` — both written to the registers.
-/

/-- The byte that an operation puts into the first register. -/
def AluOp.result (a b : UInt8) : AluOp → UInt8
  | .set => b
  | .or => a ||| b
  | .and => a &&& b
  | .xor => a ^^^ b
  | .add => a + b
  | .sub => a - b
  | .shiftRight => a >>> 1
  | .subReverse => b - a
  | .shiftLeft => a <<< 1

/-- The flag that an operation reports: the carry of a sum, that a difference is positive, or the
bit that a shift drops. -/
def AluOp.flag? (a b : UInt8) : AluOp → Option Bool
  | .set | .or | .and | .xor => none
  | .add => some (decide (256 ≤ a.toNat + b.toNat))
  | .sub => some (decide (b < a))
  | .shiftRight => some (decide (a.toNat % 2 = 1))
  | .subReverse => some (decide (a < b))
  | .shiftLeft => some (decide (128 ≤ a.toNat))

namespace Registers

/-- The registers after an operation on two of them. -/
def combine (r : Registers) (op : AluOp) (x y : Nibble) : Registers :=
  match op.flag? (r.get x) (r.get y) with
  | some b => report (r.put x (op.result (r.get x) (r.get y))) b
  | none => r.put x (op.result (r.get x) (r.get y))

end Registers

end ChipEight
