import ChipEight.Machine.Load
import ChipEight.Machine.Step

namespace ChipEight

/-!
# Effects — what one instruction and one step can reach

A step is a fetch, the execution of an instruction and a count of the timers. For each part of the
machine that a run is judged by, one lemma tells which instructions reach it; everything about runs
is derived from these lemmas and none of it opens `execute` again.

* `step_eq_ok_iff`, `step_of_execute`, `step_eq_error_iff` — the parts of a step;
* `execute_eq_error_iff` — the two instructions that can fail, and when;
* `execute_fixed` — the parts that no instruction reaches;
* `push?_of_execute`, `pop?_of_execute`, `stack_of_execute` — the call stack;
* `toList_of_step_call`, `toList_of_step_ret`, `stack_of_step`, `depth_le_of_step` — the call stack
  over a whole step;
* `screen_of_execute`, `screen_of_step`, `screen_eq_of_execute` — the screen and the draw flag;
* `random_of_step`, `random_of_step_random` — the random bytes;
* `word_of_step`, `outcome_of_step`, `pc_of_step_unknown` — the word of a step, and what a step that
  met no instruction does;
* `load_eq_ok_iff` — what loading reaches;
* `read_overlay`, `read_initial`, `word_overlay` — the bytes of the memory under an image and of a
  new machine, and the words of a loaded program.
-/

/-! ### The depth of a call stack -/

namespace CallStack

variable {s t : CallStack} {a : UInt16}

/-- A push finds a slot free and takes it. -/
theorem depth_of_push? (h : s.push? a = some t) : s.depth < 16 ∧ t.depth = s.depth + 1 := by
  unfold push? at h
  split at h
  case isTrue hd => cases h; exact ⟨hd, rfl⟩
  case isFalse => cases h

/-- A pop finds a slot taken and gives it back. -/
theorem depth_of_pop? (h : s.pop? = some (a, t)) : s.depth = t.depth + 1 := by
  unfold pop? at h
  split at h
  case isTrue => cases h
  case isFalse hd => cases h; exact (Nat.succ_pred_eq_of_ne_zero hd).symm

end CallStack

namespace Machine

variable {m m' : Machine} {i : Instruction} {outcome : StepOutcome} {f : Fault}

/-! ### The parts of a step -/

/-- A step that succeeds is an execution that succeeds, and a count of the timers after it. -/
theorem step_eq_ok_iff :
    m.step = .ok (outcome, m')
      ↔ ∃ m₁, m.fetch.execute (.decode m.fetched) = .ok (outcome, m₁) ∧ m₁.countDown = m' := by
  unfold step
  split
  case h_1 o m₁ h =>
    rw [h]
    constructor
    · intro e
      cases e
      exact ⟨m₁, rfl, rfl⟩
    · rintro ⟨m₂, e, rfl⟩
      cases e
      rfl
  case h_2 g h =>
    rw [h]
    simp

/-- An instruction that succeeds past its word succeeds as a step. -/
theorem step_of_execute {m₁ : Machine} (hi : Instruction.decode m.fetched = i)
    (he : m.fetch.execute i = .ok (outcome, m₁)) : m.step = .ok (outcome, m₁.countDown) := by
  rw [← hi] at he
  exact step_eq_ok_iff.2 ⟨m₁, he, rfl⟩

/-- A step fails with the fault of its instruction. -/
theorem step_eq_error_iff :
    m.step = .error f ↔ m.fetch.execute (.decode m.fetched) = .error f := by
  unfold step
  split
  case h_1 o m₁ h => simp [h]
  case h_2 g h => rw [h]

/-! ### Faults -/

/-- An instruction fails when it is a return with no address stored or a call with every slot taken,
and for no other reason. -/
theorem execute_eq_error_iff :
    m.execute i = .error f
      ↔ (i = .ret ∧ m.stack.depth = 0 ∧ f = .returnWithoutCall)
        ∨ ((∃ a, i = .call a) ∧ 16 ≤ m.stack.depth ∧ f = .callTooDeep) := by
  cases i
  case ret =>
    simp only [execute]
    split
    case h_1 a s h =>
      have hd : m.stack.depth ≠ 0 := fun h0 => by simp [CallStack.pop?_eq_none_iff.2 h0] at h
      simp [hd]
    case h_2 h => simp [CallStack.pop?_eq_none_iff.1 h, eq_comm]
  case call a =>
    simp only [execute]
    split
    case h_1 s h =>
      have hd : ¬ 16 ≤ m.stack.depth := fun h16 => by
        simp [CallStack.push?_eq_none_iff.2 h16] at h
      simp [hd]
    case h_2 h => simp [CallStack.push?_eq_none_iff.1 h, eq_comm]
  case awaitKey x =>
    simp only [execute]
    split <;> simp
  all_goals simp [execute]

/-! ### Parts that no instruction reaches -/

/-- The size of the program, the keys and the switch are the host's alone, and the word that was
taken up stays at hand. -/
theorem execute_fixed (h : m.execute i = .ok (outcome, m')) :
    m'.programSize = m.programSize ∧ m'.keypad = m.keypad ∧ m'.running = m.running
      ∧ m'.word = m.word := by
  cases i
  case ret => simp only [execute] at h; split at h <;> cases h; exact ⟨rfl, rfl, rfl, rfl⟩
  case call a => simp only [execute] at h; split at h <;> cases h; exact ⟨rfl, rfl, rfl, rfl⟩
  case awaitKey x =>
    simp only [execute] at h
    split at h <;> cases h <;> exact ⟨rfl, rfl, rfl, rfl⟩
  all_goals (cases h; exact ⟨rfl, rfl, rfl, rfl⟩)

/-! ### The call stack -/

/-- A call stores the address after its word and continues at its target. -/
theorem push?_of_execute {a : UInt16} (h : m.execute (.call a) = .ok (outcome, m')) :
    m.stack.push? m.pc = some m'.stack ∧ m'.pc = a := by
  simp only [execute] at h
  split at h
  case h_1 s hs => cases h; exact ⟨hs, rfl⟩
  case h_2 => cases h

/-- A return continues at the newest address and takes it off the stack. -/
theorem pop?_of_execute (h : m.execute .ret = .ok (outcome, m')) :
    m.stack.pop? = some (m'.pc, m'.stack) := by
  simp only [execute] at h
  split at h
  case h_1 a s hs => cases h; exact hs
  case h_2 => cases h

/-- No other instruction reaches the stack. -/
theorem stack_of_execute (h : m.execute i = .ok (outcome, m')) (hc : ∀ a, i ≠ .call a)
    (hr : i ≠ .ret) : m'.stack = m.stack := by
  cases i
  case ret => exact absurd rfl hr
  case call a => exact absurd rfl (hc a)
  case awaitKey x => simp only [execute] at h; split at h <;> cases h <;> rfl
  all_goals (cases h; rfl)

/-- A step of a call stores the address after its word on top of the others. -/
theorem toList_of_step_call {a : UInt16} (h : m.step = .ok (outcome, m'))
    (hi : Instruction.decode m.fetched = .call a) :
    m'.stack.toList = m.stack.toList ++ [m.pc + 2] ∧ m'.stack.depth = m.stack.depth + 1
      ∧ m.stack.depth < 16 ∧ m'.pc = a := by
  obtain ⟨m₁, he, rfl⟩ := step_eq_ok_iff.1 h
  rw [hi] at he
  obtain ⟨hp, hpc⟩ := push?_of_execute he
  obtain ⟨hlt, hd⟩ := CallStack.depth_of_push? hp
  exact ⟨CallStack.toList_of_push? hp, hd, hlt, hpc⟩

/-- A step of a return continues at the newest address and takes it off the others. -/
theorem toList_of_step_ret (h : m.step = .ok (outcome, m'))
    (hi : Instruction.decode m.fetched = .ret) (hd : m.stack.depth ≤ 16) :
    m.stack.toList = m'.stack.toList ++ [m'.pc] ∧ m.stack.depth = m'.stack.depth + 1 := by
  obtain ⟨m₁, he, rfl⟩ := step_eq_ok_iff.1 h
  rw [hi] at he
  have hp : m.fetch.stack.pop? = some (m₁.pc, m₁.stack) := pop?_of_execute he
  exact ⟨CallStack.toList_of_pop? hd hp, CallStack.depth_of_pop? hp⟩

/-- A step of any other instruction leaves the stack as it is. -/
theorem stack_of_step (h : m.step = .ok (outcome, m'))
    (hc : ∀ a, Instruction.decode m.fetched ≠ .call a)
    (hr : Instruction.decode m.fetched ≠ .ret) : m'.stack = m.stack := by
  obtain ⟨m₁, he, rfl⟩ := step_eq_ok_iff.1 h
  have hs : m₁.stack = m.fetch.stack := stack_of_execute he hc hr
  exact hs

/-- A step keeps the stack within its capacity: a call that succeeds found a slot, a return gives
one back, and nothing else takes any. -/
theorem depth_le_of_step (h : m.step = .ok (outcome, m')) (hd : m.stack.depth ≤ 16) :
    m'.stack.depth ≤ 16 := by
  by_cases hcall : ∃ a, Instruction.decode m.fetched = .call a
  · obtain ⟨a, ha⟩ := hcall
    obtain ⟨-, hdepth, hlt, -⟩ := toList_of_step_call h ha
    omega
  · by_cases hret : Instruction.decode m.fetched = .ret
    · obtain ⟨-, hdepth⟩ := toList_of_step_ret h hret hd
      omega
    · rwa [stack_of_step h (fun a ha => hcall ⟨a, ha⟩) hret]

/-! ### The screen -/

/-- An instruction leaves the screen and the draw flag as they are, or puts the flag up. -/
theorem screen_of_execute (h : m.execute i = .ok (outcome, m')) :
    m'.screen = m.screen ∧ m'.drawFlag = m.drawFlag ∨ m'.drawFlag = true := by
  cases i
  case clear => cases h; exact .inr rfl
  case draw x y n => cases h; exact .inr rfl
  case ret => simp only [execute] at h; split at h <;> cases h; exact .inl ⟨rfl, rfl⟩
  case call a => simp only [execute] at h; split at h <;> cases h; exact .inl ⟨rfl, rfl⟩
  case awaitKey x => simp only [execute] at h; split at h <;> cases h <;> exact .inl ⟨rfl, rfl⟩
  all_goals (cases h; exact .inl ⟨rfl, rfl⟩)

/-- A step leaves the screen and the draw flag as they are, or puts the flag up. -/
theorem screen_of_step (h : m.step = .ok (outcome, m')) :
    m'.screen = m.screen ∧ m'.drawFlag = m.drawFlag ∨ m'.drawFlag = true := by
  obtain ⟨m₁, he, rfl⟩ := step_eq_ok_iff.1 h
  have hs : m₁.screen = m.fetch.screen ∧ m₁.drawFlag = m.fetch.drawFlag ∨ m₁.drawFlag = true :=
    screen_of_execute he
  exact hs

/-- Two instructions reach the screen. -/
theorem screen_eq_of_execute (h : m.execute i = .ok (outcome, m')) (hc : i ≠ .clear)
    (hd : ∀ x y n, i ≠ .draw x y n) : m'.screen = m.screen := by
  cases i
  case clear => exact absurd rfl hc
  case draw x y n => exact absurd rfl (hd x y n)
  case ret => simp only [execute] at h; split at h <;> cases h; rfl
  case call a => simp only [execute] at h; split at h <;> cases h; rfl
  case awaitKey x => simp only [execute] at h; split at h <;> cases h <;> rfl
  all_goals (cases h; rfl)

/-! ### Random bytes -/

/-- One instruction takes a random byte, and the others leave the source as it is. -/
theorem random_of_execute (h : m.execute i = .ok (outcome, m'))
    (hi : ∀ x mask, i ≠ .random x mask) : m'.random = m.random := by
  cases i
  case random x mask => exact absurd rfl (hi x mask)
  case ret => simp only [execute] at h; split at h <;> cases h; rfl
  case call a => simp only [execute] at h; split at h <;> cases h; rfl
  case awaitKey x => simp only [execute] at h; split at h <;> cases h <;> rfl
  all_goals (cases h; rfl)

theorem random_of_step (h : m.step = .ok (outcome, m'))
    (hi : ∀ x mask, Instruction.decode m.fetched ≠ .random x mask) : m'.random = m.random := by
  obtain ⟨m₁, he, rfl⟩ := step_eq_ok_iff.1 h
  have hr : m₁.random = m.fetch.random := random_of_execute he hi
  exact hr

/-- The instruction that takes a random byte leaves the masked byte in its register. -/
theorem random_of_step_random {x : Nibble} {mask : UInt8} (h : m.step = .ok (outcome, m'))
    (hi : Instruction.decode m.fetched = .random x mask) :
    m'.random = m.random.next.2 ∧ m'.registers.get x = m.random.next.1 &&& mask := by
  obtain ⟨m₁, he, rfl⟩ := step_eq_ok_iff.1 h
  rw [hi] at he
  cases he
  exact ⟨rfl, Bank.get_put_self⟩

/-! ### Words -/

/-- A word that is no instruction is reported as it is. -/
theorem word_of_decode {w v : UInt16} (h : Instruction.decode w = .unknown v) : v = w := by
  unfold Instruction.decode at h
  split at h
  case h_1 => unfold Instruction.decodeSystem at h; split at h <;> cases h; rfl
  case h_9 => unfold Instruction.decodeAlu at h; split at h <;> cases h; rfl
  case h_15 => unfold Instruction.decodeKey at h; split at h <;> cases h; rfl
  case h_16 => unfold Instruction.decodeDevice at h; split at h <;> cases h; rfl
  all_goals cases h

/-- The word of a step is still at hand after the step, whatever the step did to the memory. -/
theorem word_of_step (h : m.step = .ok (outcome, m')) : m'.word = m.fetched := by
  obtain ⟨m₁, he, rfl⟩ := step_eq_ok_iff.1 h
  have hw : m₁.word = m.fetch.word := (execute_fixed he).2.2.2
  exact hw

/-- An instruction passes a word over exactly when it stands for that word. -/
theorem outcome_of_execute {w : UInt16} (h : m.execute i = .ok (outcome, m')) :
    outcome = .unknown w ↔ i = .unknown w := by
  cases i
  case ret => simp only [execute] at h; split at h <;> cases h; simp
  case call a => simp only [execute] at h; split at h <;> cases h; simp
  case awaitKey x => simp only [execute] at h; split at h <;> cases h <;> simp
  all_goals (cases h; simp)

theorem outcome_of_step {w : UInt16} (h : m.step = .ok (outcome, m')) :
    outcome = .unknown w ↔ Instruction.decode m.fetched = .unknown w := by
  obtain ⟨m₁, he, rfl⟩ := step_eq_ok_iff.1 h
  exact outcome_of_execute he

/-- A step that passes a word over passes the word at the counter over and moves on to the next. -/
theorem pc_of_step_unknown {w : UInt16} (h : m.step = .ok (.unknown w, m')) :
    w = m.fetched ∧ m'.pc = m.pc + 2 := by
  have hi := (outcome_of_step h).1 rfl
  obtain ⟨m₁, he, rfl⟩ := step_eq_ok_iff.1 h
  rw [hi] at he
  cases he
  exact ⟨word_of_decode hi, rfl⟩

/-! ### Loading -/

/-- A load succeeds on images of one byte up to the longest program, and reaches the memory and the
size of the program. -/
theorem load_eq_ok_iff {image : Array UInt8} :
    m.load image = .ok m'
      ↔ (0 < image.size ∧ image.size ≤ Memory.maxProgramSize)
        ∧ m' = { m with memory := m.memory.overlay image, programSize := image.size } := by
  unfold load
  split
  case isTrue h0 => simp [h0]
  case isFalse h0 =>
    split
    case isTrue h1 => simp; omega
    case isFalse h1 =>
      have hs : 0 < image.size ∧ image.size ≤ Memory.maxProgramSize := by omega
      simp [hs, eq_comm]

/-- The byte at an address once an image was laid over the memory. -/
theorem read_overlay (memory : Memory) (image : Array UInt8) (a : UInt16) :
    (memory.overlay image).read a
      = if Memory.programStart ≤ (Memory.slot a).val then
          image.getD ((Memory.slot a).val - Memory.programStart) (memory.read a)
        else memory.read a := by
  rw [Memory.read, Memory.read, Fin.getElem_fin, Memory.getElem_overlay]
  rfl

/-- The byte at an address of a new machine. -/
theorem read_initial (a : UInt16) :
    Memory.initial.read a = Glyph.table.toList.getD (Memory.slot a).val 0 := by
  rw [Memory.read, Fin.getElem_fin, Memory.initial, Vector.getElem_ofFn]

/-- The byte of a place in the program once an image was laid over the memory. -/
theorem read_overlay_place (memory : Memory) (image : Array UInt8) {k : Nat}
    (hk : k < Memory.maxProgramSize) :
    (memory.overlay image).read (UInt16.ofNat (Memory.programStart + k))
      = image.getD k (memory.read (UInt16.ofNat (Memory.programStart + k))) := by
  have hmax : Memory.maxProgramSize = 3584 := rfl
  have hstart : Memory.programStart = 512 := rfl
  have hslot : (Memory.slot (UInt16.ofNat (Memory.programStart + k))).val
      = Memory.programStart + k := by
    simp only [Memory.val_slot, UInt16.toNat_ofNat']
    omega
  rw [read_overlay, hslot, if_pos (Nat.le_add_right _ _), Nat.add_sub_cancel_left]

/-- A program that was loaded is what is fetched from where it lies. -/
theorem word_overlay (memory : Memory) {image : Array UInt8} {k : Nat} {high low : UInt8}
    (hs : image.size ≤ Memory.maxProgramSize) (hh : image[k]? = some high)
    (hl : image[k + 1]? = some low) :
    (memory.overlay image).word (UInt16.ofNat (Memory.programStart + k))
      = UInt16.ofNat (high.toNat * 256 + low.toNat) := by
  have hread : ∀ j b, image[j]? = some b →
      (memory.overlay image).read (UInt16.ofNat (Memory.programStart + j)) = b := by
    intro j b hj
    obtain ⟨hlt, -⟩ := Array.getElem?_eq_some_iff.1 hj
    rw [read_overlay_place memory image (by omega), Array.getD_eq_getD_getElem?, hj]
    rfl
  have hstart : Memory.programStart = 512 := rfl
  have hmax : Memory.maxProgramSize = 3584 := rfl
  obtain ⟨hlt, -⟩ := Array.getElem?_eq_some_iff.1 hl
  have hnext : UInt16.ofNat (Memory.programStart + k) + 1
      = UInt16.ofNat (Memory.programStart + (k + 1)) := by
    apply UInt16.toNat_inj.1
    simp only [UInt16.toNat_add, UInt16.toNat_ofNat', UInt16.toNat_one]
    omega
  rw [Memory.word, hnext, hread k high hh, hread (k + 1) low hl]

/-- The word that a machine fetches from a program that lies in its memory. -/
theorem fetched_overlay {memory : Memory} {image : Array UInt8} {k : Nat} {high low : UInt8}
    (hm : m.memory = memory.overlay image) (hpc : m.pc = UInt16.ofNat (Memory.programStart + k))
    (hs : image.size ≤ Memory.maxProgramSize) (hh : image[k]? = some high)
    (hl : image[k + 1]? = some low) :
    m.fetched = UInt16.ofNat (high.toNat * 256 + low.toNat) := by
  rw [fetched, hm, hpc]
  exact word_overlay memory hs hh hl

end Machine

end ChipEight
