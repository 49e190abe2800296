import ChipEight.Instruction.Basic

namespace ChipEight

/-!
# Decoding — from a word to an instruction

The top nibble of a word selects its group. Groups zero and eight go on by the low nibble, groups
fourteen and fifteen by the low byte; groups five and nine leave their low nibble unread, and group
zero the two nibbles in the middle.

* `Word.group`, `Word.x`, `Word.y`, `Word.low`, `Word.byte`, `Word.address` — the fields of a word;
* `AluOp.ofNibble?` — the operation that a low nibble of group eight names;
* `Instruction.decodeSystem`, `Instruction.decodeAlu`, `Instruction.decodeKey`,
  `Instruction.decodeDevice` — the four groups that go on;
* `Instruction.decode` — the instruction of a word, total by way of `Instruction.unknown`.
-/

/-! ### Fields of a word -/

namespace Word

/-- The top nibble. -/
def group (w : UInt16) : Nibble :=
  ⟨w.toNat / 4096, by have := w.toNat_lt; omega⟩

/-- The second nibble: the first register. -/
def x (w : UInt16) : Nibble :=
  ⟨w.toNat / 256 % 16, by omega⟩

/-- The third nibble: the second register. -/
def y (w : UInt16) : Nibble :=
  ⟨w.toNat / 16 % 16, by omega⟩

/-- The last nibble. -/
def low (w : UInt16) : Nibble :=
  ⟨w.toNat % 16, by omega⟩

/-- The low byte: an immediate value. -/
def byte (w : UInt16) : UInt8 :=
  UInt8.ofNat (w.toNat % 256)

/-- The low twelve bits: an address. -/
def address (w : UInt16) : UInt16 :=
  UInt16.ofNat (w.toNat % 4096)

@[simp] theorem toNat_byte (w : UInt16) : (byte w).toNat = w.toNat % 256 := by
  simp [byte]

@[simp] theorem toNat_address (w : UInt16) : (address w).toNat = w.toNat % 4096 := by
  simp [address]; omega

end Word

/-! ### Instructions of a word -/

/-- The operation that the low nibble of a word of group eight names. -/
def AluOp.ofNibble? : Nibble → Option AluOp
  | 0x0 => some .set
  | 0x1 => some .or
  | 0x2 => some .and
  | 0x3 => some .xor
  | 0x4 => some .add
  | 0x5 => some .sub
  | 0x6 => some .shiftRight
  | 0x7 => some .subReverse
  | 0xE => some .shiftLeft
  | _ => none

open Word

/-- The instruction of a word of group zero. -/
def Instruction.decodeSystem (w : UInt16) : Instruction :=
  match low w with
  | 0x0 => .clear
  | 0xE => .ret
  | _ => .unknown w

/-- The instruction of a word of group eight. -/
def Instruction.decodeAlu (w : UInt16) : Instruction :=
  match AluOp.ofNibble? (low w) with
  | some op => .alu op (x w) (y w)
  | none => .unknown w

/-- The instruction of a word of group fourteen. -/
def Instruction.decodeKey (w : UInt16) : Instruction :=
  match byte w with
  | 0x9E => .skipKeyDown (x w)
  | 0xA1 => .skipKeyUp (x w)
  | _ => .unknown w

/-- The instruction of a word of group fifteen. -/
def Instruction.decodeDevice (w : UInt16) : Instruction :=
  match byte w with
  | 0x07 => .readDelay (x w)
  | 0x0A => .awaitKey (x w)
  | 0x15 => .startDelay (x w)
  | 0x18 => .startSound (x w)
  | 0x1E => .addIndex (x w)
  | 0x29 => .glyph (x w)
  | 0x33 => .decimal (x w)
  | 0x55 => .store (x w)
  | 0x65 => .load (x w)
  | _ => .unknown w

/-- The instruction that a word stands for. The last case is group fifteen, the only one left. -/
def Instruction.decode (w : UInt16) : Instruction :=
  match group w with
  | 0x0 => decodeSystem w
  | 0x1 => .jump (address w)
  | 0x2 => .call (address w)
  | 0x3 => .skipEqual (x w) (byte w)
  | 0x4 => .skipUnequal (x w) (byte w)
  | 0x5 => .skipSame (x w) (y w)
  | 0x6 => .set (x w) (byte w)
  | 0x7 => .add (x w) (byte w)
  | 0x8 => decodeAlu w
  | 0x9 => .skipDifferent (x w) (y w)
  | 0xA => .setIndex (address w)
  | 0xB => .jumpOffset (address w)
  | 0xC => .random (x w) (byte w)
  | 0xD => .draw (x w) (y w) (low w)
  | 0xE => decodeKey w
  | _ => decodeDevice w

end ChipEight
