import ChipEight.Instruction.Decode

namespace ChipEight

/-!
# The table of instructions — which words stand for which instruction

Decoding goes through a word field by field; the table tells for each instruction what the fields of
its words are. Both say the same, so that a fact about a word can be turned into one about its
instruction and back without opening `decode`.

* `Word.StandsFor` — the table;
* `Word.standsFor_decode`, `Word.standsFor_unique` — a word stands for what it decodes to, and for
  nothing else;
* `Word.decode_of_standsFor`, `Word.decode_eq_iff` — the table as the inverse image of `decode`;
* `Word.ofNibbles` — the word with four given nibbles, with its fields.
-/

namespace Word

/-- The instructions that a word stands for. -/
inductive StandsFor (w : UInt16) : Instruction → Prop
  | clear : (group w).val = 0x0 → (low w).val = 0x0 → StandsFor w .clear
  | ret : (group w).val = 0x0 → (low w).val = 0xE → StandsFor w .ret
  | jump : (group w).val = 0x1 → StandsFor w (.jump (address w))
  | call : (group w).val = 0x2 → StandsFor w (.call (address w))
  | skipEqual : (group w).val = 0x3 → StandsFor w (.skipEqual (x w) (byte w))
  | skipUnequal : (group w).val = 0x4 → StandsFor w (.skipUnequal (x w) (byte w))
  | skipSame : (group w).val = 0x5 → StandsFor w (.skipSame (x w) (y w))
  | set : (group w).val = 0x6 → StandsFor w (.set (x w) (byte w))
  | add : (group w).val = 0x7 → StandsFor w (.add (x w) (byte w))
  | alu {op : AluOp} :
      (group w).val = 0x8 → AluOp.ofNibble? (low w) = some op → StandsFor w (.alu op (x w) (y w))
  | skipDifferent : (group w).val = 0x9 → StandsFor w (.skipDifferent (x w) (y w))
  | setIndex : (group w).val = 0xA → StandsFor w (.setIndex (address w))
  | jumpOffset : (group w).val = 0xB → StandsFor w (.jumpOffset (address w))
  | random : (group w).val = 0xC → StandsFor w (.random (x w) (byte w))
  | draw : (group w).val = 0xD → StandsFor w (.draw (x w) (y w) (low w))
  | skipKeyDown : (group w).val = 0xE → byte w = 0x9E → StandsFor w (.skipKeyDown (x w))
  | skipKeyUp : (group w).val = 0xE → byte w = 0xA1 → StandsFor w (.skipKeyUp (x w))
  | readDelay : (group w).val = 0xF → byte w = 0x07 → StandsFor w (.readDelay (x w))
  | awaitKey : (group w).val = 0xF → byte w = 0x0A → StandsFor w (.awaitKey (x w))
  | startDelay : (group w).val = 0xF → byte w = 0x15 → StandsFor w (.startDelay (x w))
  | startSound : (group w).val = 0xF → byte w = 0x18 → StandsFor w (.startSound (x w))
  | addIndex : (group w).val = 0xF → byte w = 0x1E → StandsFor w (.addIndex (x w))
  | glyph : (group w).val = 0xF → byte w = 0x29 → StandsFor w (.glyph (x w))
  | decimal : (group w).val = 0xF → byte w = 0x33 → StandsFor w (.decimal (x w))
  | store : (group w).val = 0xF → byte w = 0x55 → StandsFor w (.store (x w))
  | load : (group w).val = 0xF → byte w = 0x65 → StandsFor w (.load (x w))
  | unknownSystem :
      (group w).val = 0x0 → (low w).val ≠ 0x0 → (low w).val ≠ 0xE → StandsFor w (.unknown w)
  | unknownAlu : (group w).val = 0x8 → AluOp.ofNibble? (low w) = none → StandsFor w (.unknown w)
  | unknownKey : (group w).val = 0xE → byte w ∉ [0x9E, 0xA1] → StandsFor w (.unknown w)
  | unknownDevice :
      (group w).val = 0xF → byte w ∉ [0x07, 0x0A, 0x15, 0x18, 0x1E, 0x29, 0x33, 0x55, 0x65] →
      StandsFor w (.unknown w)

variable {w : UInt16} {i : Instruction}

/-! ### A word stands for what it decodes to -/

theorem standsFor_decodeSystem (h : (group w).val = 0x0) : StandsFor w (.decodeSystem w) := by
  unfold Instruction.decodeSystem
  split
  case h_1 hl => exact .clear h (congrArg Fin.val hl)
  case h_2 hl => exact .ret h (congrArg Fin.val hl)
  case h_3 h0 hE => exact .unknownSystem h (fun hl => h0 (Fin.ext hl)) fun hl => hE (Fin.ext hl)

theorem standsFor_decodeAlu (h : (group w).val = 0x8) : StandsFor w (.decodeAlu w) := by
  unfold Instruction.decodeAlu
  split
  case h_1 op hop => exact .alu h hop
  case h_2 hnone => exact .unknownAlu h hnone

theorem standsFor_decodeKey (h : (group w).val = 0xE) : StandsFor w (.decodeKey w) := by
  unfold Instruction.decodeKey
  split
  case h_1 hb => exact .skipKeyDown h hb
  case h_2 hb => exact .skipKeyUp h hb
  case h_3 => exact .unknownKey h (by simp_all)

theorem standsFor_decodeDevice (h : (group w).val = 0xF) : StandsFor w (.decodeDevice w) := by
  unfold Instruction.decodeDevice
  split
  case h_1 hb => exact .readDelay h hb
  case h_2 hb => exact .awaitKey h hb
  case h_3 hb => exact .startDelay h hb
  case h_4 hb => exact .startSound h hb
  case h_5 hb => exact .addIndex h hb
  case h_6 hb => exact .glyph h hb
  case h_7 hb => exact .decimal h hb
  case h_8 hb => exact .store h hb
  case h_9 hb => exact .load h hb
  case h_10 => exact .unknownDevice h (by simp_all)

/-- The groups are the cases of `decode`; its last case is the only group left. -/
theorem standsFor_decode (w : UInt16) : StandsFor w (.decode w) := by
  unfold Instruction.decode
  split
  case h_1 h => exact standsFor_decodeSystem (congrArg Fin.val h)
  case h_2 h => exact .jump (congrArg Fin.val h)
  case h_3 h => exact .call (congrArg Fin.val h)
  case h_4 h => exact .skipEqual (congrArg Fin.val h)
  case h_5 h => exact .skipUnequal (congrArg Fin.val h)
  case h_6 h => exact .skipSame (congrArg Fin.val h)
  case h_7 h => exact .set (congrArg Fin.val h)
  case h_8 h => exact .add (congrArg Fin.val h)
  case h_9 h => exact standsFor_decodeAlu (congrArg Fin.val h)
  case h_10 h => exact .skipDifferent (congrArg Fin.val h)
  case h_11 h => exact .setIndex (congrArg Fin.val h)
  case h_12 h => exact .jumpOffset (congrArg Fin.val h)
  case h_13 h => exact .random (congrArg Fin.val h)
  case h_14 h => exact .draw (congrArg Fin.val h)
  case h_15 h => exact standsFor_decodeKey (congrArg Fin.val h)
  -- a group is below sixteen, and the cases before this one have taken the other fifteen
  case h_16 => exact standsFor_decodeDevice (by grind)

/-! ### A word stands for nothing else -/

/-- The fields of a word leave one line of the table. -/
theorem standsFor_unique {j : Instruction} (hi : StandsFor w i) (hj : StandsFor w j) : i = j := by
  cases hi <;> cases hj <;> simp_all

theorem decode_of_standsFor (h : StandsFor w i) : Instruction.decode w = i :=
  standsFor_unique (standsFor_decode w) h

/-- The words of an instruction are those that the table tells. -/
theorem decode_eq_iff : Instruction.decode w = i ↔ StandsFor w i :=
  ⟨fun h => h ▸ standsFor_decode w, decode_of_standsFor⟩

/-! ### Words put together -/

/-- The word with the nibbles `g`, `r`, `s` and `n`, the top one first. -/
def ofNibbles (g r s n : Nibble) : UInt16 :=
  UInt16.ofNat (4096 * g.val + 256 * r.val + 16 * s.val + n.val)

section

variable (g r s n : Nibble)

theorem toNat_ofNibbles :
    (ofNibbles g r s n).toNat = 4096 * g.val + 256 * r.val + 16 * s.val + n.val := by
  rw [ofNibbles, UInt16.toNat_ofNat']
  omega

@[simp] theorem group_ofNibbles : group (ofNibbles g r s n) = g := by
  apply Fin.ext
  show (ofNibbles g r s n).toNat / 4096 = g.val
  rw [toNat_ofNibbles]
  omega

@[simp] theorem x_ofNibbles : x (ofNibbles g r s n) = r := by
  apply Fin.ext
  show (ofNibbles g r s n).toNat / 256 % 16 = r.val
  rw [toNat_ofNibbles]
  omega

@[simp] theorem y_ofNibbles : y (ofNibbles g r s n) = s := by
  apply Fin.ext
  show (ofNibbles g r s n).toNat / 16 % 16 = s.val
  rw [toNat_ofNibbles]
  omega

@[simp] theorem low_ofNibbles : low (ofNibbles g r s n) = n := by
  apply Fin.ext
  show (ofNibbles g r s n).toNat % 16 = n.val
  rw [toNat_ofNibbles]
  omega

@[simp] theorem byte_ofNibbles :
    byte (ofNibbles g r s n) = UInt8.ofNat (16 * s.val + n.val) := by
  have h : (ofNibbles g r s n).toNat % 256 = 16 * s.val + n.val := by
    rw [toNat_ofNibbles]
    omega
  rw [byte, h]

end

variable {r s n : Nibble}

/-- The words of group eight whose last nibble names an operation. -/
theorem decode_operation {op : AluOp} (hw : w = ofNibbles 0x8 r s n)
    (h : AluOp.ofNibble? n = some op) : Instruction.decode w = .alu op r s := by
  subst hw
  have hg : (group (ofNibbles 0x8 r s n)).val = 0x8 := by
    rw [group_ofNibbles]
    rfl
  have hw : StandsFor (ofNibbles 0x8 r s n) (.alu op (x _) (y _)) :=
    .alu hg (by rwa [low_ofNibbles])
  rw [decode_of_standsFor hw, x_ofNibbles, y_ofNibbles]

/-- The words of group fifteen whose low byte names an instruction on one register. -/
theorem decode_device {i : Nibble → Instruction} (hw : w = ofNibbles 0xF r s n)
    (h : ∀ w, (group w).val = 0xF → byte w = UInt8.ofNat (16 * s.val + n.val) →
      StandsFor w (i (x w))) :
    Instruction.decode w = i r := by
  subst hw
  have hg : (group (ofNibbles 0xF r s n)).val = 0xF := by
    rw [group_ofNibbles]
    rfl
  rw [decode_of_standsFor (h _ hg (byte_ofNibbles 0xF r s n)), x_ofNibbles]

end Word

end ChipEight
