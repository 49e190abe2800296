import ChipEight.Proofs.Machine.Arithmetic
import ChipEight.Proofs.Machine.Transfers

namespace ChipEight

/-!
# Digits — a register written to memory in decimal

The three digits of a register go to the three places at the index, modulo the number of bytes. They
are those of the register as it was, since the flag is reported after them, and the flag goes by the
index as it is: an index above the top of the memory sets it although the digits need not go round
the top.

* `IsDecimal`, `isDecimal_decimalDigits` — the digits of a number;
* `Memory.wraps_iff` — when a block goes round the top of the memory;
* `Machine.Expanded`, `Machine.expanded_of_step` — what writing the digits leaves, and that it never
  fails;
* `Machine.Expanded.read_back` — the digits in registers again;
* `Machine.decimal_read_back` — one after the other.
-/

/-- `h`, `t` and `o` are the decimal digits of `v`. -/
structure IsDecimal (v : Nat) (h t o : UInt8) : Prop where
  /-- The hundreds are a digit. -/
  hundreds : h.toNat ≤ 9
  /-- The tens are a digit. -/
  tens : t.toNat ≤ 9
  /-- The ones are a digit. -/
  ones : o.toNat ≤ 9
  /-- Together they are the number. -/
  value : 100 * h.toNat + 10 * t.toNat + o.toNat = v

/-- The hundreds of a byte need no remainder, because it is below a thousand. -/
theorem isDecimal_decimalDigits (b : UInt8) :
    ∃ h t o, Machine.decimalDigits b = [h, t, o] ∧ IsDecimal b.toNat h t o := by
  have hb := b.toNat_lt
  have hh : (b / 100).toNat = b.toNat / 100 := UInt8.toNat_div _ _
  have ht : (b / 10 % 10).toNat = b.toNat / 10 % 10 := by
    rw [UInt8.toNat_mod, UInt8.toNat_div]
    rfl
  have ho : (b % 10).toNat = b.toNat % 10 := UInt8.toNat_mod _ _
  exact ⟨_, _, _, rfl, by omega, by omega, by omega, by omega⟩

/-- A block of `n + 1` places that begins in the memory goes round its top when its last place has
an address above it. -/
theorem Memory.wraps_iff {a : UInt16} {n : Nat} (ha : a.toNat ≤ 0xFFF) (hn : n < 4096) :
    (∃ k ≤ n, (place a k).val < a.toNat) ↔ 0xFFF < a.toNat + n := by
  simp only [place]
  constructor
  · rintro ⟨k, hk, hlt⟩
    omega
  · intro h
    exact ⟨n, Nat.le_refl n, by omega⟩

namespace Machine

open Memory (place)

variable {m m' k k' : Machine} {x : Nibble} {h t o : UInt8}

/-- `m'` is `m` with the decimal digits of register `x` written to the block at the index. -/
structure Expanded (x : Nibble) (h t o : UInt8) (m m' : Machine) : Prop where
  /-- The digits are those of the register as it was. -/
  digits : IsDecimal (m.registers.get x).toNat h t o
  /-- The hundreds come first. -/
  hundreds : m'.memory.get (place m.index 0) = h
  /-- The tens come next. -/
  tens : m'.memory.get (place m.index 1) = t
  /-- The ones come last. -/
  ones : m'.memory.get (place m.index 2) = o
  /-- Bytes beside the block are as they were. -/
  others : ∀ i, (∀ j ≤ 2, i ≠ place m.index j) → m'.memory.get i = m.memory.get i
  /-- The flag tells whether the last address is above the memory. -/
  flag : (m'.registers.get Registers.flag).toNat = if 0xFFF < m.index.toNat + 2 then 1 else 0
  /-- The flag is all that the registers receive. -/
  registers : ∀ r, r ≠ Registers.flag → m'.registers.get r = m.registers.get r
  /-- The index stays where it is. -/
  index : m'.index = m.index

theorem expanded_writeDecimal (m : Machine) (x : Nibble) :
    ∃ h t o, Expanded x h t o m (m.writeDecimal x) := by
  obtain ⟨h, t, o, hlist, hdigits⟩ := isDecimal_decimalDigits (m.registers.get x)
  have hlen : [h, t, o].length ≤ 4096 := by simp
  have hmem : (m.writeDecimal x).memory = m.memory.writeList m.index [h, t, o] :=
    congrArg (m.memory.writeList m.index) hlist
  have hbyte : ∀ j (hj : j < [h, t, o].length),
      (m.writeDecimal x).memory.get (place m.index j) = [h, t, o][j] := by
    intro j hj
    rw [hmem, Memory.get_writeList_place hlen hj]
  refine ⟨h, t, o, hdigits, hbyte 0 (by simp), hbyte 1 (by simp), hbyte 2 (by simp), ?_, ?_, ?_,
    rfl⟩
  · intro i hi
    rw [hmem]
    exact Memory.get_writeList_of_ne fun j hj => hi j (Nat.le_of_lt_succ hj)
  · -- the digits were taken before the flag is put in place, also for the flag register
    show ((m.registers.report _).get Registers.flag).toNat = _
    rw [Registers.get_report_flag, AluOp.toNat_toUInt8_decide]
  · intro r hr
    exact Registers.get_report_of_ne hr.symm

/-- Writing digits never fails. -/
theorem expanded_of_step (hw : m.fetched = Word.ofNibbles 0xF x 0x3 0x3) :
    ∃ m' h t o, m.step = .ok (.proceeded, m') ∧ Expanded x h t o m m' := by
  have hi : Instruction.decode m.fetched = .decimal x := Word.decode_device hw fun _ => .decimal
  obtain ⟨h, t, o, he⟩ := expanded_writeDecimal m.fetch x
  exact ⟨_, h, t, o, step_of_execute hi rfl, he.digits, he.hundreds, he.tens, he.ones, he.others,
    he.flag, he.registers, he.index⟩

/-- A load of three registers puts the digits into them. -/
theorem Expanded.read_back (he : Expanded x h t o m m') (hm : k.memory = m'.memory)
    (hi : k.index = m'.index) (hl : Loaded 2 k k') :
    k'.registers.get 0 = h ∧ k'.registers.get 1 = t ∧ k'.registers.get 2 = o := by
  have hbyte : ∀ r ≤ (2 : Nibble), k'.registers.get r = m'.memory.get (place m.index r.val) := by
    intro r hr
    rw [hl.loaded r hr, hm, hi, he.index]
  refine ⟨?_, ?_, ?_⟩
  · exact (hbyte 0 (by decide)).trans he.hundreds
  · exact (hbyte 1 (by decide)).trans he.tens
  · exact (hbyte 2 (by decide)).trans he.ones

/-- **A register is written in decimal and read back**, wherever the index points and whichever
register it is. Three digits that are the register as it was go to the three places at the index,
and no other byte is written. The flag tells whether the last address is above the memory: for an
index in the memory this is so when a digit went round the top, and for any other index always. No
other register changes, and neither does the index. A load of three registers that follows with the
same index and memory puts the digits into them. -/
theorem decimal_read_back (hw : m.fetched = Word.ofNibbles 0xF x 0x3 0x3) :
    ∃ m' h t o, m.step = .ok (.proceeded, m') ∧ Expanded x h t o m m'
      ∧ (m.index.toNat ≤ 0xFFF → ((m'.registers.get Registers.flag).toNat = 1
          ↔ ∃ j ≤ 2, (place m.index j).val < m.index.toNat))
      ∧ (0xFFF < m.index.toNat → (m'.registers.get Registers.flag).toNat = 1)
      ∧ ∀ k : Machine, k.memory = m'.memory → k.index = m'.index →
          k.fetched = Word.ofNibbles 0xF 0x2 0x6 0x5 →
          ∃ k', k.step = .ok (.proceeded, k')
            ∧ k'.registers.get 0 = h ∧ k'.registers.get 1 = t ∧ k'.registers.get 2 = o := by
  obtain ⟨m', h, t, o, hs, he⟩ := expanded_of_step hw
  refine ⟨m', h, t, o, hs, he, ?_, ?_, ?_⟩
  · intro hindex
    rw [he.flag, Memory.wraps_iff hindex (by decide)]
    split <;> omega
  · intro hindex
    rw [he.flag, if_pos (by omega)]
  · intro k hm hi hw'
    obtain ⟨k', hs', hl⟩ := loaded_of_step hw'
    exact ⟨k', hs', he.read_back hm hi hl⟩

/-- A program that writes the digits of the flag register and loads them. -/
def writeAndLoad : Array UInt8 := #[0xFF, 0x33, 0xF2, 0x65]

/-- The digits are those of the flag register before it is set, and the last two of them go to the
bottom of the memory. -/
theorem decimal_read_back_writeAndLoad :
    ∃ m m' k k' : Machine, m.index.toNat = 0xFFF ∧ m.registers.get Registers.flag = 254
      ∧ m.step = .ok (.proceeded, m') ∧ (m'.registers.get Registers.flag).toNat = 1
      ∧ k.memory = m'.memory ∧ k.index = m'.index ∧ k.step = .ok (.proceeded, k')
      ∧ (k'.registers.get 0).toNat = 2 ∧ (k'.registers.get 1).toNat = 5
      ∧ (k'.registers.get 2).toNat = 4 := by
  let m : Machine :=
    { ofSeed 0 with
      memory := Memory.initial.overlay writeAndLoad
      programSize := 4
      index := 0xFFF
      registers := Registers.zero.put Registers.flag 254 }
  have hwrite : m.fetched = Word.ofNibbles 0xF 0xF 0x3 0x3 :=
    (fetched_overlay (m := m) (k := 0) rfl rfl (by decide) rfl rfl).trans (by decide)
  obtain ⟨m', h, t, o, hs, he, hwraps, -, hback⟩ := decimal_read_back hwrite
  let k : Machine := { m' with pc := 0x202 }
  have hload : k.fetched = Word.ofNibbles 0xF 0x2 0x6 0x5 := by
    -- the digits are nowhere near the program
    have hkept : m'.memory.word 0x202 = m.memory.word 0x202 :=
      Memory.word_eq_of_get (he.others _ (by decide)) (he.others _ (by decide))
    show m'.memory.word 0x202 = _
    rw [hkept]
    exact (word_overlay Memory.initial (k := 2) (by decide) rfl rfl).trans (by decide)
  obtain ⟨k', hs', h0, h1, h2⟩ := hback k rfl rfl hload
  have hv : (m.registers.get Registers.flag).toNat = 254 := by decide
  obtain ⟨hh, ht, ho, hvalue⟩ := he.digits
  have hvalue' := hvalue.trans hv
  refine ⟨m, m', k, k', rfl, by decide, hs, ?_, rfl, rfl, hs', ?_, ?_, ?_⟩
  · exact (hwraps (by decide)).2 ⟨1, by decide, by decide⟩
  · rw [h0]; omega
  · rw [h1]; omega
  · rw [h2]; omega

end Machine

end ChipEight
