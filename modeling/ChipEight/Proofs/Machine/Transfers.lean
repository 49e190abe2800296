import ChipEight.Proofs.Instruction.Decoding
import ChipEight.Proofs.Machine.Blocks

namespace ChipEight

/-!
# Transfers — registers written to memory and read back

Storing and loading go through the registers from the first one up to the one that is named, and
through the block at the index, in step: register `r` and place `r` of the block go together in both
directions. So loading after storing gives the registers back whatever happened to them in between,
and storing after loading leaves the memory as it was.

* `Machine.Stored`, `Machine.Loaded` — what a store and a load leave;
* `Machine.stored_of_step`, `Machine.loaded_of_step` — they never fail;
* `Machine.Stored.read_back`, `Machine.Loaded.write_back` — one after the other;
* `Machine.transfers_invert` — both, with what they leave alone.
-/

open Memory (place place_inj)

namespace Machine

variable {m m' k k' : Machine} {x : Nibble}

/-! ### One transfer -/

/-- `m'` is `m` with the registers up to `x` written to the block at the index. -/
structure Stored (x : Nibble) (m m' : Machine) : Prop where
  /-- The index stays where it is. -/
  index : m'.index = m.index
  /-- Registers are read only. -/
  registers : m'.registers = m.registers
  /-- Each register is in its place. -/
  written : ∀ r ≤ x, m'.memory.get (place m.index r.val) = m.registers.get r
  /-- Bytes beside the block are as they were. -/
  others : ∀ i, (∀ r ≤ x, i ≠ place m.index r.val) → m'.memory.get i = m.memory.get i

/-- `m'` is `m` with the registers up to `x` read from the block at the index. -/
structure Loaded (x : Nibble) (m m' : Machine) : Prop where
  /-- The index stays where it is. -/
  index : m'.index = m.index
  /-- The memory is read only. -/
  memory : m'.memory = m.memory
  /-- Each register is what is in its place. -/
  loaded : ∀ r ≤ x, m'.registers.get r = m.memory.get (place m.index r.val)
  /-- Registers above the one that is named are as they were. -/
  others : ∀ r, x < r → m'.registers.get r = m.registers.get r

theorem stored_storeRegisters (m : Machine) (x : Nibble) : Stored x m (m.storeRegisters x) where
  index := rfl
  registers := rfl
  written := by
    intro r hr
    have hle : r.val ≤ x.val := hr
    have hlen : (m.registers.toList.take (x.val + 1)).length = x.val + 1 := by
      rw [List.length_take, Vector.length_toList]
      omega
    have hlt : r.val < (m.registers.toList.take (x.val + 1)).length := by omega
    have hbyte := Memory.get_writeList_place (m := m.memory) (a := m.index) (by omega) hlt
    rw [List.getElem_take] at hbyte
    exact hbyte
  others := by
    intro i hi
    apply Memory.get_writeList_of_ne
    intro j hj
    have hj' : j < x.val + 1 := Nat.lt_of_lt_of_le hj (List.length_take_le _ _)
    exact hi ⟨j, by omega⟩ (Nat.le_of_lt_succ hj')

theorem loaded_loadRegisters (m : Machine) (x : Nibble) : Loaded x m (m.loadRegisters x) where
  index := rfl
  memory := rfl
  loaded := by
    intro r hr
    have hle : r.val ≤ x.val := hr
    rw [← Memory.read_add]
    simp [loadRegisters, Bank.get, hle]
  others := by
    intro r hr
    have hlt : ¬ r.val ≤ x.val := Nat.not_le_of_lt hr
    simp [loadRegisters, Bank.get, hlt]

/-- A store never fails. -/
theorem stored_of_step (hw : m.fetched = Word.ofNibbles 0xF x 0x5 0x5) :
    ∃ m', m.step = .ok (.proceeded, m') ∧ Stored x m m' := by
  have hi : Instruction.decode m.fetched = .store x := Word.decode_device hw fun _ => .store
  have hstored := stored_storeRegisters m.fetch x
  exact ⟨_, step_of_execute hi rfl, hstored.index, hstored.registers, hstored.written,
    hstored.others⟩

/-- A load never fails. -/
theorem loaded_of_step (hw : m.fetched = Word.ofNibbles 0xF x 0x6 0x5) :
    ∃ m', m.step = .ok (.proceeded, m') ∧ Loaded x m m' := by
  have hi : Instruction.decode m.fetched = .load x := Word.decode_device hw fun _ => .load
  have hloaded := loaded_loadRegisters m.fetch x
  exact ⟨_, step_of_execute hi rfl, hloaded.index, hloaded.memory, hloaded.loaded,
    hloaded.others⟩

/-! ### One transfer after the other -/

/-- What was stored is what a load reads. -/
theorem Stored.read_back (hs : Stored x m m') (hm : k.memory = m'.memory) (hi : k.index = m'.index)
    (hl : Loaded x k k') : ∀ r ≤ x, k'.registers.get r = m.registers.get r := by
  intro r hr
  rw [hl.loaded r hr, hm, hi, hs.index, hs.written r hr]

/-- What was loaded is what a store finds there already. -/
theorem Loaded.write_back (hl : Loaded x m m') (hm : k.memory = m'.memory)
    (hi : k.index = m'.index) (hr : ∀ r ≤ x, k.registers.get r = m'.registers.get r)
    (hs : Stored x k k') : k'.memory = m.memory := by
  have hindex : k.index = m.index := hi.trans hl.index
  have hmemory : k.memory = m.memory := hm.trans hl.memory
  -- in the block the byte that is written is the one there, and beside it nothing is written
  have hget : ∀ i, k'.memory.get i = m.memory.get i := by
    intro i
    by_cases h : ∃ r ≤ x, i = place m.index r.val
    · obtain ⟨r, hle, rfl⟩ := h
      have hbyte := hs.written r hle
      rw [hindex] at hbyte
      rw [hbyte, hr r hle, hl.loaded r hle]
    · have hbeside : ∀ r ≤ x, i ≠ place k.index r.val := by
        intro r hle heq
        exact h ⟨r, hle, hindex ▸ heq⟩
      rw [hs.others i hbeside, hmemory]
  exact Vector.ext fun i hi => hget ⟨i, hi⟩

/-- **Transfers invert each other**, wherever the index points. A store writes the registers up to
the one that it names to as many different places, and no other byte; a load that follows with the
same index and memory gives these registers back whatever they were in between, and leaves those
above them. A store that follows a load with the same index and registers leaves the memory as it
was before both. Neither moves the index. -/
theorem transfers_invert (x : Nibble) :
    (∀ m : Machine, m.fetched = Word.ofNibbles 0xF x 0x5 0x5 →
      ∃ m', m.step = .ok (.proceeded, m') ∧ Stored x m m'
        ∧ ∀ k : Machine, k.memory = m'.memory → k.index = m'.index →
          k.fetched = Word.ofNibbles 0xF x 0x6 0x5 →
          ∃ k', k.step = .ok (.proceeded, k') ∧ Loaded x k k'
            ∧ (∀ r ≤ x, k'.registers.get r = m.registers.get r)
            ∧ ∀ r, x < r → k'.registers.get r = k.registers.get r)
    ∧ (∀ m : Machine, m.fetched = Word.ofNibbles 0xF x 0x6 0x5 →
      ∃ m', m.step = .ok (.proceeded, m') ∧ Loaded x m m'
        ∧ ∀ k : Machine, k.memory = m'.memory → k.index = m'.index →
          (∀ r ≤ x, k.registers.get r = m'.registers.get r) →
          k.fetched = Word.ofNibbles 0xF x 0x5 0x5 →
          ∃ k', k.step = .ok (.proceeded, k') ∧ Stored x k k' ∧ k'.memory = m.memory)
    ∧ ∀ (a : UInt16) (r s : Nibble), r ≤ x → s ≤ x →
        place a r.val = place a s.val → r = s := by
  refine ⟨?_, ?_, ?_⟩
  · intro m hw
    obtain ⟨m', hs, hstored⟩ := stored_of_step hw
    refine ⟨m', hs, hstored, ?_⟩
    intro k hm hi hw'
    obtain ⟨k', hs', hloaded⟩ := loaded_of_step hw'
    exact ⟨k', hs', hloaded, hstored.read_back hm hi hloaded, hloaded.others⟩
  · intro m hw
    obtain ⟨m', hs, hloaded⟩ := loaded_of_step hw
    refine ⟨m', hs, hloaded, ?_⟩
    intro k hm hi hr hw'
    obtain ⟨k', hs', hstored⟩ := stored_of_step hw'
    exact ⟨k', hs', hstored, hloaded.write_back hm hi hr hstored⟩
  · intro a r s _ _ h
    exact Fin.ext ((place_inj (by omega) (by omega)).1 h)

/-- A program that stores two registers and loads them. -/
def storeAndLoad : Array UInt8 := #[0xF1, 0x55, 0xF1, 0x65]

/-- The two registers go to the last byte of the memory and to the first one. -/
theorem transfers_invert_storeAndLoad :
    ∃ m m' k k' : Machine, m.index.toNat = 0xFFF
      ∧ m.registers.get 0 = 7 ∧ m.registers.get 1 = 9 ∧ k.registers.get 0 = 0
      ∧ m.step = .ok (.proceeded, m') ∧ k.memory = m'.memory ∧ k.step = .ok (.proceeded, k')
      ∧ k'.registers.get 0 = 7 ∧ k'.registers.get 1 = 9 := by
  let m : Machine :=
    { ofSeed 0 with
      memory := Memory.initial.overlay storeAndLoad
      programSize := 4
      index := 0xFFF
      registers := (Registers.zero.put 0 7).put 1 9 }
  have hstore : m.fetched = Word.ofNibbles 0xF 1 0x5 0x5 :=
    (fetched_overlay (m := m) (k := 0) rfl rfl (by decide) rfl rfl).trans (by decide)
  obtain ⟨m', hs, hstored, hback⟩ := (transfers_invert 1).1 m hstore
  let k : Machine :=
    { m with memory := m'.memory, index := m'.index, pc := 0x202, registers := .zero }
  have hload : k.fetched = Word.ofNibbles 0xF 1 0x6 0x5 := by
    -- the block is nowhere near the program
    have hkept : m'.memory.word 0x202 = m.memory.word 0x202 :=
      Memory.word_eq_of_get (hstored.others _ (by decide)) (hstored.others _ (by decide))
    show m'.memory.word 0x202 = _
    rw [hkept]
    exact (word_overlay Memory.initial (k := 2) (by decide) rfl rfl).trans (by decide)
  obtain ⟨k', hs', -, hregisters, -⟩ := hback k rfl rfl hload
  refine ⟨m, m', k, k', rfl, by decide, by decide, Bank.get_fill, hs, rfl, hs', ?_, ?_⟩
  · rw [hregisters 0 (by decide)]
    decide
  · rw [hregisters 1 (by decide)]
    decide

end Machine

end ChipEight
