import ChipEight.Proofs.Instruction.Decoding

namespace ChipEight

/-!
# Encoding — what decoding forgets about a word

Decoding leaves some nibbles of some words unread: the two in the middle of a blank of the screen or
a return, and the last one of a comparison of two registers. An instruction is put back into a word
by filling these with zeros. So the word that comes back is the one that was decoded, with the
nibbles that decoding does not read set to zero, and two words have the same instruction when they
differ in such nibbles at most.

* `Word.ofAddress`, `Word.ofByte`, `Word.ofRegisters` — words from their fields;
* `Instruction.encode` — the word of an instruction;
* `Word.plain`, `Word.encode_decode` — a word with its unread nibbles set to zero, and that it is
  what comes back;
* `Word.Alike`, `Word.decode_eq_decode_iff` — words that differ in unread nibbles at most.
-/

/-- The last nibble of the words of an operation. -/
def AluOp.code : AluOp → Nat
  | .set => 0x0
  | .or => 0x1
  | .and => 0x2
  | .xor => 0x3
  | .add => 0x4
  | .sub => 0x5
  | .shiftRight => 0x6
  | .subReverse => 0x7
  | .shiftLeft => 0xE

theorem AluOp.code_of_ofNibble? {n : Nibble} {op : AluOp} (h : ofNibble? n = some op) :
    op.code = n.val := by
  have all : ∀ k : Nibble, ∀ o ∈ ofNibble? k, o.code = k.val := by decide
  exact all n op h

namespace Word

/-! ### Words from their fields -/

/-- The word with a top nibble and an address. -/
def ofAddress (g : Nat) (a : UInt16) : UInt16 :=
  UInt16.ofNat (4096 * g + a.toNat % 4096)

/-- The word with a top nibble, a register and a byte. -/
def ofByte (g : Nat) (r : Nibble) (b : UInt8) : UInt16 :=
  UInt16.ofNat (4096 * g + 256 * r.val + b.toNat)

/-- The word with a top nibble, two registers and a last nibble. -/
def ofRegisters (g : Nat) (r s : Nibble) (n : Nat) : UInt16 :=
  UInt16.ofNat (4096 * g + 256 * r.val + 16 * s.val + n)

variable {w : UInt16} {g : Nat}

theorem val_group (w : UInt16) : (group w).val = w.toNat / 4096 := rfl

theorem val_x (w : UInt16) : (x w).val = w.toNat / 256 % 16 := rfl

theorem val_y (w : UInt16) : (y w).val = w.toNat / 16 % 16 := rfl

theorem val_low (w : UInt16) : (low w).val = w.toNat % 16 := rfl

theorem ofAddress_address (h : (group w).val = g) : ofAddress g (address w) = w := by
  have hw := w.toNat_lt
  rw [val_group] at h
  apply UInt16.toNat_inj.1
  rw [ofAddress, toNat_address, UInt16.toNat_ofNat']
  omega

theorem ofByte_byte (h : (group w).val = g) : ofByte g (x w) (byte w) = w := by
  have hw := w.toNat_lt
  rw [val_group] at h
  apply UInt16.toNat_inj.1
  rw [ofByte, toNat_byte, val_x, UInt16.toNat_ofNat']
  omega

theorem ofRegisters_low (h : (group w).val = g) :
    ofRegisters g (x w) (y w) (low w).val = w := by
  have hw := w.toNat_lt
  rw [val_group] at h
  apply UInt16.toNat_inj.1
  rw [ofRegisters, val_x, val_y, val_low, UInt16.toNat_ofNat']
  omega

theorem ofRegisters_zero (h : (group w).val = g) :
    ofRegisters g (x w) (y w) 0 = UInt16.ofNat (w.toNat / 16 * 16) := by
  have hfields : 4096 * g + 256 * (x w).val + 16 * (y w).val + 0 = w.toNat / 16 * 16 := by
    rw [val_group] at h
    rw [val_x, val_y]
    omega
  rw [ofRegisters, hfields]

end Word

/-! ### The word of an instruction -/

open Word

/-- A word that stands for an instruction, with zeros where it makes no difference. -/
def Instruction.encode : Instruction → UInt16
  | .clear => 0x0000
  | .ret => 0x000E
  | .jump a => ofAddress 0x1 a
  | .call a => ofAddress 0x2 a
  | .skipEqual x b => ofByte 0x3 x b
  | .skipUnequal x b => ofByte 0x4 x b
  | .skipSame x y => ofRegisters 0x5 x y 0
  | .set x b => ofByte 0x6 x b
  | .add x b => ofByte 0x7 x b
  | .alu op x y => ofRegisters 0x8 x y op.code
  | .skipDifferent x y => ofRegisters 0x9 x y 0
  | .setIndex a => ofAddress 0xA a
  | .jumpOffset a => ofAddress 0xB a
  | .random x b => ofByte 0xC x b
  | .draw x y n => ofRegisters 0xD x y n.val
  | .skipKeyDown x => ofByte 0xE x 0x9E
  | .skipKeyUp x => ofByte 0xE x 0xA1
  | .readDelay x => ofByte 0xF x 0x07
  | .awaitKey x => ofByte 0xF x 0x0A
  | .startDelay x => ofByte 0xF x 0x15
  | .startSound x => ofByte 0xF x 0x18
  | .addIndex x => ofByte 0xF x 0x1E
  | .glyph x => ofByte 0xF x 0x29
  | .decimal x => ofByte 0xF x 0x33
  | .store x => ofByte 0xF x 0x55
  | .load x => ofByte 0xF x 0x65
  | .unknown w => w

namespace Word

variable {w v : UInt16} {n : Nat} {i : Instruction}

/-- The word with the nibbles that decoding does not read set to zero. -/
def plain (w : UInt16) : UInt16 :=
  if (group w).val = 0x0 ∧ ((low w).val = 0x0 ∨ (low w).val = 0xE) then
    UInt16.ofNat (w.toNat % 16)
  else if (group w).val = 0x5 ∨ (group w).val = 0x9 then
    UInt16.ofNat (w.toNat / 16 * 16)
  else
    w

theorem plain_of_group (hg : (group w).val = n) (hn : n ∉ [0x0, 0x5, 0x9]) : plain w = w := by
  rw [plain, if_neg (by simp_all), if_neg (by simp_all)]

theorem plain_of_system (hg : (group w).val = 0x0) (h0 : (low w).val ≠ 0x0)
    (hE : (low w).val ≠ 0xE) : plain w = w := by
  rw [plain, if_neg (by simp [h0, hE]), if_neg (by simp [hg])]

theorem plain_of_comparison (h : (group w).val = 0x5 ∨ (group w).val = 0x9) :
    plain w = UInt16.ofNat (w.toNat / 16 * 16) := by
  rw [plain, if_neg (by omega), if_pos h]

@[simp] theorem group_plain (w : UInt16) : group (plain w) = group w := by
  have hw := w.toNat_lt
  apply Fin.ext
  unfold plain
  split
  case isTrue h =>
    have hgroup := h.1
    rw [val_group] at hgroup
    rw [val_group, val_group, UInt16.toNat_ofNat']
    omega
  case isFalse =>
    split
    · rw [val_group, val_group, UInt16.toNat_ofNat']
      omega
    · rfl

theorem low_plain_of_system (h : (group w).val = 0x0) : low (plain w) = low w := by
  unfold plain
  split
  · apply Fin.ext
    rw [val_low, val_low, UInt16.toNat_ofNat']
    omega
  · rw [if_neg (by omega)]

/-- An instruction is put back into the word that it was decoded from, as far as that was read. -/
theorem encode_of_standsFor (h : StandsFor w i) : i.encode = plain w := by
  cases h
  case clear hg hl =>
    rw [plain, if_pos ⟨hg, .inl hl⟩, ← val_low, hl]
    rfl
  case ret hg hl =>
    rw [plain, if_pos ⟨hg, .inr hl⟩, ← val_low, hl]
    rfl
  case skipSame hg =>
    rw [plain_of_comparison (.inl hg)]
    exact ofRegisters_zero hg
  case skipDifferent hg =>
    rw [plain_of_comparison (.inr hg)]
    exact ofRegisters_zero hg
  -- from here on every nibble is read, and the word comes back as it was
  case jump hg | call hg | setIndex hg | jumpOffset hg =>
    rw [plain_of_group hg (by decide)]
    exact ofAddress_address hg
  case skipEqual hg | skipUnequal hg | set hg | add hg | random hg =>
    rw [plain_of_group hg (by decide)]
    exact ofByte_byte hg
  case draw hg =>
    rw [plain_of_group hg (by decide)]
    exact ofRegisters_low hg
  case alu op hg hop =>
    rw [plain_of_group hg (by decide), Instruction.encode, AluOp.code_of_ofNibble? hop]
    exact ofRegisters_low hg
  case unknownSystem hg h0 hE =>
    rw [plain_of_system hg h0 hE]
    rfl
  case unknownAlu hg _ | unknownKey hg _ | unknownDevice hg _ =>
    rw [plain_of_group hg (by decide)]
    rfl
  -- the rest are the words whose low byte is a fixed one
  all_goals
    rename_i hg hb
    rw [plain_of_group hg (by decide), Instruction.encode, ← hb]
    exact ofByte_byte hg

theorem encode_decode (w : UInt16) : (Instruction.decode w).encode = plain w :=
  encode_of_standsFor (standsFor_decode w)

/-! ### Words that decode alike -/

/-- Two words that differ at most where decoding does not look. -/
inductive Alike (w v : UInt16) : Prop
  /-- The words are the same. -/
  | same : w = v → Alike w v
  /-- The top nibbles are zero, and the last nibbles are the same one of the two that count. -/
  | system :
      (group w).val = 0x0 → (group v).val = 0x0 → (low w).val = (low v).val →
      (low w).val = 0x0 ∨ (low w).val = 0xE → Alike w v
  /-- The top nibbles are five, and all but the last nibbles agree. -/
  | equality :
      (group w).val = 0x5 → (group v).val = 0x5 → w.toNat / 16 = v.toNat / 16 → Alike w v
  /-- The top nibbles are nine, and all but the last nibbles agree. -/
  | inequality :
      (group w).val = 0x9 → (group v).val = 0x9 → w.toNat / 16 = v.toNat / 16 → Alike w v

/-- Setting unread nibbles to zero makes only words equal that differ there at most. -/
theorem alike_of_plain_eq (h : plain w = plain v) : Alike w v := by
  have hgroup : group w = group v := by
    rw [← group_plain w, h, group_plain]
  have hlow : (group w).val = 0x0 → low w = low v := by
    intro hw
    rw [← low_plain_of_system hw, h, low_plain_of_system (hgroup ▸ hw)]
  by_cases hsystem : (group w).val = 0x0 ∧ ((low w).val = 0x0 ∨ (low w).val = 0xE)
  · obtain ⟨hw, hcount⟩ := hsystem
    exact .system hw (hgroup ▸ hw) (congrArg Fin.val (hlow hw)) hcount
  by_cases hcompare : (group w).val = 0x5 ∨ (group w).val = 0x9
  · have htwelve : w.toNat / 16 = v.toNat / 16 := by
      have hvalue := congrArg UInt16.toNat h
      rw [plain_of_comparison hcompare, plain_of_comparison (hgroup ▸ hcompare),
        UInt16.toNat_ofNat', UInt16.toNat_ofNat'] at hvalue
      have hw := w.toNat_lt
      have hv := v.toNat_lt
      omega
    rcases hcompare with hw | hw
    · exact .equality hw (hgroup ▸ hw) htwelve
    · exact .inequality hw (hgroup ▸ hw) htwelve
  · -- every nibble of the first word is read, and then every nibble of the second one is
    have hsystem' : ¬ ((group v).val = 0x0 ∧ ((low v).val = 0x0 ∨ (low v).val = 0xE)) := by
      rintro ⟨hv, hcount⟩
      have hw : (group w).val = 0x0 := hgroup ▸ hv
      exact hsystem ⟨hw, hlow hw ▸ hcount⟩
    rw [plain, if_neg hsystem, if_neg hcompare, plain, if_neg hsystem',
      if_neg (hgroup ▸ hcompare)] at h
    exact .same h

/-- Words that differ where decoding does not look have the same instruction. -/
theorem Alike.decode_eq (h : Alike w v) : Instruction.decode w = Instruction.decode v := by
  cases h with
  | same h => rw [h]
  | system hw hv hl hcount =>
    rcases hcount with h0 | hE
    · rw [decode_of_standsFor (.clear hw h0), decode_of_standsFor (.clear hv (hl ▸ h0))]
    · rw [decode_of_standsFor (.ret hw hE), decode_of_standsFor (.ret hv (hl ▸ hE))]
  | equality hw hv h =>
    have hx : x w = x v := Fin.ext (by rw [val_x, val_x]; omega)
    have hy : y w = y v := Fin.ext (by rw [val_y, val_y]; omega)
    rw [decode_of_standsFor (.skipSame hw), decode_of_standsFor (.skipSame hv), hx, hy]
  | inequality hw hv h =>
    have hx : x w = x v := Fin.ext (by rw [val_x, val_x]; omega)
    have hy : y w = y v := Fin.ext (by rw [val_y, val_y]; omega)
    rw [decode_of_standsFor (.skipDifferent hw), decode_of_standsFor (.skipDifferent hv), hx, hy]

/-- Two words have the same instruction when they differ at most where decoding does not look. -/
theorem decode_eq_decode_iff : Instruction.decode w = Instruction.decode v ↔ Alike w v := by
  constructor
  · intro h
    apply alike_of_plain_eq
    rw [← encode_decode, h, encode_decode]
  · exact Alike.decode_eq

end Word

end ChipEight
