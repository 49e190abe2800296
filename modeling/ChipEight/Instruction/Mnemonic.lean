import ChipEight.Instruction.Basic
import ChipEight.Text.Hex

namespace ChipEight

/-!
# Mnemonics — the assembler text of an instruction

Registers are written `V0` to `VF`. Addresses have three hexadecimal digits after `0x` and
immediate values two; the height of a sprite is decimal. A word that is no instruction is written
as `???` and its four digits.

* `registerName` — the text of a register;
* `AluOp.mnemonic` — the name of an operation;
* `Instruction.mnemonic` — the whole text.
-/

/-- The text that names a register. -/
def registerName (x : Nibble) : String :=
  "V" ++ Hex.text 1 x.val

/-- The name of an operation on two registers. -/
def AluOp.mnemonic : AluOp → String
  | .set => "LD"
  | .or => "OR"
  | .and => "AND"
  | .xor => "XOR"
  | .add => "ADD"
  | .sub => "SUB"
  | .shiftRight => "SHR"
  | .subReverse => "SUBN"
  | .shiftLeft => "SHL"

/-- The text of an address. -/
def addressText (a : UInt16) : String :=
  Hex.marked 3 a.toNat

/-- The text of an immediate value. -/
def byteText (b : UInt8) : String :=
  Hex.marked 2 b.toNat

/-- The assembler text of an instruction. -/
def Instruction.mnemonic : Instruction → String
  | .clear => "CLS"
  | .ret => "RET"
  | .jump a => "JP " ++ addressText a
  | .jumpOffset a => "JP V0, " ++ addressText a
  | .call a => "CALL " ++ addressText a
  | .skipEqual x b => "SE " ++ registerName x ++ ", " ++ byteText b
  | .skipUnequal x b => "SNE " ++ registerName x ++ ", " ++ byteText b
  | .skipSame x y => "SE " ++ registerName x ++ ", " ++ registerName y
  | .skipDifferent x y => "SNE " ++ registerName x ++ ", " ++ registerName y
  | .set x b => "LD " ++ registerName x ++ ", " ++ byteText b
  | .add x b => "ADD " ++ registerName x ++ ", " ++ byteText b
  | .alu op x y => op.mnemonic ++ " " ++ registerName x ++ ", " ++ registerName y
  | .random x b => "RND " ++ registerName x ++ ", " ++ byteText b
  | .setIndex a => "LD I, " ++ addressText a
  | .addIndex x => "ADD I, " ++ registerName x
  | .draw x y n => "DRW " ++ registerName x ++ ", " ++ registerName y ++ ", " ++ toString n.val
  | .skipKeyDown x => "SKP " ++ registerName x
  | .skipKeyUp x => "SKNP " ++ registerName x
  | .awaitKey x => "LD " ++ registerName x ++ ", K"
  | .readDelay x => "LD " ++ registerName x ++ ", DT"
  | .startDelay x => "LD DT, " ++ registerName x
  | .startSound x => "LD ST, " ++ registerName x
  | .glyph x => "LD F, " ++ registerName x
  | .decimal x => "LD B, " ++ registerName x
  | .store x => "LD [I], " ++ registerName x
  | .load x => "LD " ++ registerName x ++ ", [I]"
  | .unknown w => "??? " ++ Hex.marked 4 w.toNat

end ChipEight
