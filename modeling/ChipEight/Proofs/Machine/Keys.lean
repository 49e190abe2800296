import ChipEight.Proofs.Machine.Turns

namespace ChipEight

/-!
# Keys — code that does not look at the pad

Three instructions look at the keys, and none moves one. A step of any other instruction is the same
step with another pad: it comes to the same, and the machine that it leaves differs in the pad only.
Turns go on alike as long as none of their steps looks at the keys, and whether one of them does is
the same for every pad, since up to the first that does all steps were the same.

* `Instruction.readsKeys`, `ReadsKeys` — the instructions that look at the keys, and steps among
  which there is one of them;
* `Executed.withKeypad` — a step made with another pad;
* `Machine.execute_withKeypad`, `Machine.step_withKeypad` — one instruction, and one step;
* `Machine.readsKeys_turns_withKeypad` — whether turns look at the keys;
* `Machine.turns_withKeypad`, `Machine.afterTurns_withKeypad` — turns that do not.
-/

/-! ### Looking at the keys -/

/-- Whether an instruction looks at the keys. -/
def Instruction.readsKeys : Instruction → Bool
  | .skipKeyDown _ | .skipKeyUp _ | .awaitKey _ => true
  | _ => false

/-- Whether one of the steps looks at the keys. -/
def ReadsKeys (steps : List Executed) : Prop :=
  ∃ e ∈ steps, e.instruction.readsKeys = true

theorem not_readsKeys_nil : ¬ ReadsKeys [] := by
  rintro ⟨e, he, -⟩
  cases he

theorem readsKeys_cons {e : Executed} {steps : List Executed} :
    ReadsKeys (e :: steps) ↔ e.instruction.readsKeys = true ∨ ReadsKeys steps := by
  simp only [ReadsKeys, List.mem_cons, or_and_right, exists_or, exists_eq_left]

theorem readsKeys_append {steps later : List Executed} :
    ReadsKeys (steps ++ later) ↔ ReadsKeys steps ∨ ReadsKeys later := by
  simp only [ReadsKeys, List.mem_append, or_and_right, exists_or]

/-- The same step with another pad. -/
def Executed.withKeypad (e : Executed) (p : Keypad) : Executed where
  before := e.before.withKeypad p
  outcome := e.outcome
  after := e.after.withKeypad p

namespace Machine

variable {m m' : Machine} {i : Instruction} {p : Keypad} {n : Nat}

/-! ### One step with another pad -/

/-- An instruction that does not look at the keys does the same with another pad. -/
theorem execute_withKeypad (p : Keypad) (h : i.readsKeys = false) :
    (m.withKeypad p).execute i = (m.execute i).map (Prod.map id (withKeypad · p)) := by
  cases i
  case skipKeyDown x => cases h
  case skipKeyUp x => cases h
  case awaitKey x => cases h
  case ret =>
    simp only [execute, show (m.withKeypad p).stack = m.stack from rfl]
    cases m.stack.pop? <;> rfl
  case call a =>
    simp only [execute, show (m.withKeypad p).stack = m.stack from rfl,
      show (m.withKeypad p).pc = m.pc from rfl]
    cases m.stack.push? m.pc <;> rfl
  all_goals rfl

/-- Looking at the keys never fails. -/
theorem exists_step_of_readsKeys (h : (Instruction.decode m.fetched).readsKeys = true) :
    ∃ outcome m', m.step = .ok (outcome, m') := by
  cases hs : m.step with
  | ok r => exact ⟨r.1, r.2, rfl⟩
  | error f =>
    -- the two instructions that can fail look at no key
    rcases execute_eq_error_iff.1 (step_eq_error_iff.1 hs) with ⟨hi, -, -⟩ | ⟨⟨a, hi⟩, -, -⟩
    · rw [hi] at h
      cases h
    · rw [hi] at h
      cases h

/-- A step that does not look at the keys is the same step with another pad. -/
theorem step_withKeypad (p : Keypad) (h : (Instruction.decode m.fetched).readsKeys = false) :
    (m.withKeypad p).step = m.step.map (Prod.map id (withKeypad · p)) := by
  rw [step, step, show (m.withKeypad p).fetched = m.fetched from rfl,
    show (m.withKeypad p).fetch = m.fetch.withKeypad p from rfl, execute_withKeypad p h]
  cases m.fetch.execute (.decode m.fetched) <;> rfl

theorem step_withKeypad_of_step {outcome : StepOutcome} (p : Keypad)
    (h : (Instruction.decode m.fetched).readsKeys = false) (hs : m.step = .ok (outcome, m')) :
    (m.withKeypad p).step = .ok (outcome, m'.withKeypad p) := by
  rw [step_withKeypad p h, hs]
  rfl

theorem step_withKeypad_of_fault {f : Fault} (p : Keypad)
    (h : (Instruction.decode m.fetched).readsKeys = false) (hs : m.step = .error f) :
    (m.withKeypad p).step = .error f := by
  rw [step_withKeypad p h, hs]
  rfl

/-! ### Turns with another pad -/

/-- Whether one of the steps of turns looks at the keys does not depend on the keys. -/
theorem readsKeys_turns_withKeypad (p : Keypad) (n : Nat) (m : Machine) :
    ReadsKeys ((m.withKeypad p).turns n) ↔ ReadsKeys (m.turns n) := by
  induction n generalizing m with
  | zero => exact Iff.rfl
  | succ n ih =>
    cases hr : m.isRunning with
    | false =>
      have hr' : (m.withKeypad p).isRunning = false := hr
      rw [turns_of_stopped hr, turns_of_stopped hr']
    | true =>
      have hr' : (m.withKeypad p).isRunning = true := hr
      cases hk : (Instruction.decode m.fetched).readsKeys with
      | true =>
        -- with either pad, the first step looks at the keys
        have hk' : (Instruction.decode (m.withKeypad p).fetched).readsKeys = true := hk
        obtain ⟨o, m₁, hs⟩ := exists_step_of_readsKeys hk
        obtain ⟨o', m₁', hs'⟩ := exists_step_of_readsKeys hk'
        rw [turns_of_step hr hs, turns_of_step hr' hs']
        exact iff_of_true (readsKeys_cons.2 (.inl hk')) (readsKeys_cons.2 (.inl hk))
      | false =>
        -- with either pad, the first step does not, and comes to the same
        cases hs : m.step with
        | error f =>
          rw [turns_of_fault hs, turns_of_fault (step_withKeypad_of_fault p hk hs)]
        | ok r =>
          have hs' := step_withKeypad_of_step p hk hs
          rw [turns_of_step hr hs, turns_of_step hr' hs', readsKeys_cons, readsKeys_cons]
          exact or_congr Iff.rfl (ih r.2.clearDrawFlag)

/-- Turns that do not look at the keys make the same steps with another pad and leave the same
machine but for the pad, or end in the same fault. -/
theorem turns_withKeypad (p : Keypad) (h : ¬ ReadsKeys (m.turns n)) :
    (m.withKeypad p).turns n = (m.turns n).map (Executed.withKeypad · p)
      ∧ (m.withKeypad p).afterTurns n = (m.afterTurns n).map (withKeypad · p) := by
  induction n generalizing m with
  | zero => exact ⟨rfl, rfl⟩
  | succ n ih =>
    cases hr : m.isRunning with
    | false =>
      have hr' : (m.withKeypad p).isRunning = false := hr
      rw [turns_of_stopped hr, turns_of_stopped hr', afterTurns_of_stopped hr,
        afterTurns_of_stopped hr']
      exact ⟨rfl, rfl⟩
    | true =>
      have hr' : (m.withKeypad p).isRunning = true := hr
      -- the first step is one of the turns, so it does not look at the keys
      have hk : (Instruction.decode m.fetched).readsKeys = false := by
        rw [← Bool.not_eq_true]
        intro hk
        obtain ⟨o, m₁, hs⟩ := exists_step_of_readsKeys hk
        rw [turns_of_step hr hs] at h
        exact h (readsKeys_cons.2 (.inl hk))
      cases hs : m.step with
      | error f =>
        have hs' := step_withKeypad_of_fault p hk hs
        rw [turns_of_fault hs, turns_of_fault hs', afterTurns_of_fault hr hs,
          afterTurns_of_fault hr' hs']
        exact ⟨rfl, rfl⟩
      | ok r =>
        have hs' := step_withKeypad_of_step p hk hs
        rw [turns_of_step hr hs, readsKeys_cons] at h
        obtain ⟨hturns, hafter⟩ := ih fun hlater => h (.inr hlater)
        rw [turns_of_step hr hs, turns_of_step hr' hs', afterTurns_of_step hr hs,
          afterTurns_of_step hr' hs']
        refine ⟨?_, hafter⟩
        rw [List.map_cons, ← hturns]
        rfl

end Machine

end ChipEight
