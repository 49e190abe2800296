import ChipEight.Proofs.Host.Faults
import ChipEight.Proofs.Instruction.Decoding
import ChipEight.Proofs.Keypad.History
import ChipEight.Proofs.Machine.Counter

namespace ChipEight

/-!
# Successors — the counter after a step, from the word of the step

The fields of a word, the registers, the keys and the newest return address are all that the counter
after a step depends on. Two words that skip on opposite conditions are told apart by nothing else
that a step leaves behind.

* `Machine.NamesKeyDown`, `Machine.SkipsOn` — the conditions of the skips, by the fields of a word;
* `Machine.successor?` — the counter after a step, by the fields of its word;
* `Machine.successor?_of_continues` — the same as by the instruction that the word stands for;
* `Word.Opposed`, `Machine.Complements` — pairs of skips, and what a step of each leaves;
* `Host.successor_of_reachable` — all of it, for the hosts that runs reach.
-/

open Word

/-! ### Words that go on elsewhere -/

namespace Machine

/-- Whether a byte is the number of a key that is down; a byte above fifteen is none. -/
def NamesKeyDown (m : Machine) (b : UInt8) : Prop :=
  ∃ k : Nibble, k.val = b.toNat ∧ m.keypad.keys.get k = true

instance (m : Machine) (b : UInt8) : Decidable (m.NamesKeyDown b) :=
  inferInstanceAs (Decidable (∃ k : Nibble, k.val = b.toNat ∧ m.keypad.keys.get k = true))

/-- Whether a word is a skip whose condition holds. -/
def SkipsOn (m : Machine) (w : UInt16) : Prop :=
  ((group w).val = 0x3 ∧ m.registers.get (x w) = byte w)
    ∨ ((group w).val = 0x4 ∧ m.registers.get (x w) ≠ byte w)
    ∨ ((group w).val = 0x5 ∧ m.registers.get (x w) = m.registers.get (y w))
    ∨ ((group w).val = 0x9 ∧ m.registers.get (x w) ≠ m.registers.get (y w))
    ∨ ((group w).val = 0xE ∧ byte w = 0x9E ∧ m.NamesKeyDown (m.registers.get (x w)))
    ∨ ((group w).val = 0xE ∧ byte w = 0xA1 ∧ ¬ m.NamesKeyDown (m.registers.get (x w)))

instance (m : Machine) (w : UInt16) : Decidable (m.SkipsOn w) :=
  instDecidableOr

/-- The counter after a step with a word. There is none for a return with no address stored. -/
def successor? (m : Machine) (w : UInt16) : Option Nat :=
  if (group w).val = 0x1 ∨ (group w).val = 0x2 then
    some (w.toNat % 4096)
  else if (group w).val = 0xB then
    some (w.toNat % 4096 + (m.registers.get Registers.offset).toNat)
  else if (group w).val = 0x0 ∧ (low w).val = 0xE then
    m.stack.toList.getLast?.map UInt16.toNat
  else if (group w).val = 0xF ∧ byte w = 0x0A ∧ ∀ k, m.keypad.keys.get k = false then
    some m.pc.toNat
  else if m.SkipsOn w then
    some ((m.pc.toNat + 4) % 65536)
  else
    some ((m.pc.toNat + 2) % 65536)

variable {m : Machine} {w v pc : UInt16} {i : Instruction}

/-! ### The word and its instruction -/

theorem jumps_iff_of_standsFor (hw : StandsFor w i) :
    i.jumps = true
      ↔ (group w).val = 0x1 ∨ (group w).val = 0x2 ∨ (group w).val = 0xB
        ∨ ((group w).val = 0x0 ∧ (low w).val = 0xE) := by
  cases hw
  all_goals simp_all [Instruction.jumps]

theorem waits_iff_of_standsFor (m : Machine) (hw : StandsFor w i) :
    m.waits i = true
      ↔ (group w).val = 0xF ∧ byte w = 0x0A ∧ ∀ k, m.keypad.keys.get k = false := by
  cases hw
  all_goals simp_all [waits, Keypad.firstDown]

theorem skips_iff_of_standsFor (m : Machine) (hw : StandsFor w i) :
    m.skips i = true ↔ m.SkipsOn w := by
  cases hw
  all_goals simp_all [skips, skipTest?, SkipsOn, NamesKeyDown, ← Keypad.isDown_eq_true_iff]

/-- A word that neither jumps nor waits goes on at the next word or at the one after it. -/
theorem successor?_of_not_jumps (hw : StandsFor w i) (hj : i.jumps = false)
    (hwait : m.waits i = false) :
    m.successor? w = some ((m.pc.toNat + if m.skips i then 4 else 2) % 65536) := by
  -- the branches of `successor?` before the last two are those of jumps and waits
  have hnojump := mt (jumps_iff_of_standsFor hw).2 (by simp [hj])
  have hnowait := mt (waits_iff_of_standsFor m hw).2 (by simp [hwait])
  rw [successor?, if_neg (by grind), if_neg (by grind), if_neg (by grind), if_neg hnowait]
  simp only [← skips_iff_of_standsFor m hw]
  split <;> rfl

/-- A skip is neither a jump nor a wait. -/
theorem jumps_of_skips (h : m.skips i = true) : i.jumps = false ∧ m.waits i = false := by
  cases i <;> simp_all [skips, skipTest?, Instruction.jumps, waits]

/-- The fields of a word tell where its instruction goes on. -/
theorem successor?_of_continues (hw : StandsFor w i) (hc : m.Continues i pc) :
    m.successor? w = some pc.toNat := by
  cases hc with
  | jump =>
    cases hw with
    | jump hg => rw [successor?, if_pos (.inl hg), toNat_address]
  | call =>
    cases hw with
    | call hg => rw [successor?, if_pos (.inr hg), toNat_address]
  | offset =>
    cases hw with
    | jumpOffset hg =>
      have hV0 := (m.registers.get Registers.offset).toNat_lt
      have hsum : w.toNat % 4096 + (m.registers.get Registers.offset).toNat < 2 ^ 16 := by omega
      rw [successor?, if_neg (by simp [hg]), if_pos hg, UInt16.toNat_add, toNat_address,
        UInt8.toNat_toUInt16, Nat.mod_eq_of_lt hsum]
  | ret hlist =>
    cases hw with
    | ret hg hl =>
      rw [successor?, if_neg (by simp [hg]), if_neg (by simp [hg]), if_pos ⟨hg, hl⟩, hlist,
        List.getLast?_concat]
      rfl
  | wait h =>
    obtain ⟨hg, hb, hup⟩ := (waits_iff_of_standsFor m hw).1 h
    simp [successor?, hg, hb, hup]
  | skip h =>
    obtain ⟨hj, hwait⟩ := jumps_of_skips h
    rw [successor?_of_not_jumps hw hj hwait, if_pos h, UInt16.toNat_add]
    rfl
  | next hj hwait hs =>
    rw [successor?_of_not_jumps hw hj hwait, if_neg (by simp [hs]), UInt16.toNat_add]
    rfl

end Machine

/-! ### Opposed skips -/

/-- Two words that skip on opposite conditions; the last nibbles of a comparison of two registers
do not count. -/
inductive Word.Opposed (w v : UInt16) : Prop
  /-- Of a register with a byte. -/
  | immediate :
      (group w).val = 0x3 → (group v).val = 0x4 → x w = x v → byte w = byte v → Opposed w v
  /-- Of two registers. -/
  | registers : (group w).val = 0x5 → (group v).val = 0x9 → x w = x v → y w = y v → Opposed w v
  /-- Of a key. -/
  | keys :
      (group w).val = 0xE → (group v).val = 0xE → byte w = 0x9E → byte v = 0xA1 → x w = x v →
      Opposed w v

theorem Word.Opposed.decode {w v : UInt16} (h : Word.Opposed w v) :
    (Instruction.decode w).Opposed (.decode v) := by
  cases h with
  | immediate hw hv hx hb =>
    rw [decode_of_standsFor (.skipEqual hw), decode_of_standsFor (.skipUnequal hv), hx, hb]
    exact .immediate _ _
  | registers hw hv hx hy =>
    rw [decode_of_standsFor (.skipSame hw), decode_of_standsFor (.skipDifferent hv), hx, hy]
    exact .registers _ _
  | keys hw hv hbw hbv hx =>
    rw [decode_of_standsFor (.skipKeyDown hw hbw), decode_of_standsFor (.skipKeyUp hv hbv), hx]
    exact .keys _

namespace Machine

/-- Exactly one of two words skips, and a step with the one leaves what a step with the other leaves
but for the counter, the word that was taken up and the bytes that the word was taken up from. -/
def Complements (m : Machine) (w v : UInt16) : Prop :=
  ∃ m₁ m₂, (m.facing w).step = .ok (.proceeded, m₁) ∧ (m.facing v).step = .ok (.proceeded, m₂)
    ∧ (m₁.pc = m.pc + 4 ∧ m₂.pc = m.pc + 2 ∨ m₁.pc = m.pc + 2 ∧ m₂.pc = m.pc + 4)
    ∧ (m₁.word = w ∧ m₂.word = v) ∧ m₁.memory = (m.facing w).memory
    ∧ m₂ = { m₁ with memory := (m.facing v).memory, pc := m₂.pc, word := m₂.word }

theorem complements_of_opposed (m : Machine) {w v : UInt16} (h : Word.Opposed w v) :
    m.Complements w v := by
  obtain ⟨c, hw, hv⟩ := skipTest?_of_opposed m h.decode
  have hsw : (m.facing w).step = .ok (.proceeded, ((m.facing w).fetch.skipIf c).countDown) :=
    step_of_skipTest? (by rw [fetched_facing]; exact hw)
  have hsv : (m.facing v).step = .ok (.proceeded, ((m.facing v).fetch.skipIf !c).countDown) :=
    step_of_skipTest? (by rw [fetched_facing]; exact hv)
  have hpw := pc_skipIf_fetch (m.facing w) c
  have hpv := pc_skipIf_fetch (m.facing v) !c
  refine ⟨_, _, hsw, hsv, ?_, ⟨fetched_facing m w, fetched_facing m v⟩, rfl, rfl⟩
  cases c with
  | false => exact .inr ⟨hpw, hpv⟩
  | true => exact .inl ⟨hpw, hpv⟩

end Machine

/-! ### Every reachable host -/

namespace Host

/-- **The counter law**: in every host that a run of a new machine reaches, a step leaves the
counter where the fields of its word say, an offset jump no further than `0x10FE`; and whatever the
state, of two words that skip on opposite conditions exactly one skips, and nothing else tells them
apart. -/
theorem successor_of_reachable {h : Host} (hr : h.Reachable) :
    (∀ outcome m', h.machine.step = .ok (outcome, m') →
      h.machine.successor? h.machine.fetched = some m'.pc.toNat
        ∧ ((group h.machine.fetched).val = 0xB → m'.pc.toNat ≤ 0x10FE))
      ∧ ∀ m w v, Word.Opposed w v → Machine.Complements m w v := by
  refine ⟨fun outcome m' hs => ?_, fun m w v => Machine.complements_of_opposed m⟩
  have hc := Machine.continues_of_step hs hr.bounded.depth_le
  have hsucc := Machine.successor?_of_continues (standsFor_decode _) hc
  refine ⟨hsucc, fun hg => ?_⟩
  have hV0 := (h.machine.registers.get Registers.offset).toNat_lt
  rw [Machine.successor?, if_neg (by simp [hg]), if_pos hg, Option.some.injEq] at hsucc
  omega

/-- A program that fills register zero and jumps as far as an offset jump can. -/
def farJump : Array UInt8 := #[0x60, 0xFF, 0xBF, 0xFF]

theorem successor_of_reachable_farJump :
    ∃ (h : Host) (m' : Machine), h.Reachable ∧ h.machine.step = .ok (.proceeded, m')
      ∧ h.machine.successor? h.machine.fetched = some 0x10FE ∧ m'.pc.toNat = 0x10FE
      ∧ h.machine.Complements 0x3000 0x4000 := by
  let m₀ : Machine :=
    { Machine.ofSeed 0 with memory := Memory.initial.overlay farJump, programSize := 4 }
  let h₀ : Host := { ofSeed 0 1 with machine := m₀, journal := ⟨#[], #[], #[.loaded 4]⟩ }
  let m₁ : Machine := (m₀.fetch.put 0 0xFF).countDown
  have hset : Instruction.decode m₀.fetched = .set 0 0xFF := by
    rw [Machine.fetched_overlay (m := m₀) (k := 0) rfl rfl (by decide) rfl rfl]
    decide
  have hjump : Instruction.decode m₁.fetched = .jumpOffset 0xFFF := by
    rw [Machine.fetched_overlay (m := m₁) (k := 2) rfl rfl (by decide) rfl rfl]
    decide
  have hs₀ : m₀.step = .ok (.proceeded, m₁) := by
    refine Machine.step_eq_ok_iff.2 ⟨_, ?_, rfl⟩
    rw [hset]
    rfl
  have hload : (ofSeed 0 1).Run _ h₀ := Run.nil.perform (a := .load farJump) rfl
  have hr₁ := hload.step hs₀
  have hs₁ : m₁.step = .ok (.proceeded, { m₁.fetch with pc := 0x10FE }.countDown) := by
    refine Machine.step_eq_ok_iff.2 ⟨_, ?_, rfl⟩
    rw [hjump]
    rfl
  obtain ⟨hstep, hpairs⟩ := successor_of_reachable ⟨0, 1, _, hr₁⟩
  obtain ⟨hsucc, -⟩ := hstep _ _ hs₁
  exact ⟨_, _, ⟨0, 1, _, hr₁⟩, hs₁, hsucc, rfl, hpairs _ _ _ (.immediate rfl rfl rfl rfl)⟩

end Host

end ChipEight
