import ChipEight.Host.Basic
import ChipEight.Proofs.Machine.Turns

namespace ChipEight

/-!
# Ticks — a batch of turns, and what an observer sees of it

A tick is as many turns of the machine as the host has steps to a tick. The pictures shown and the
words counted are functions of the steps that those turns make, and cutting a tick in two changes
nothing that can be seen.

* `Executed.isUnknown`, `pictures` — what the host counts, and what it shows, of a list of steps;
* `Journal.recordTurn`, `Host.afterSteps` — the journal and the host after steps of a tick;
* `Host.batch_eq` — a batch in terms of the turns of the machine;
* `Journal.frames_recordTurns` — the pictures that go into the journal;
* `Host.tick_refines_turns` — a tick is turns of the machine, whole or in two parts.
-/

/-! ### Steps as the host sees them -/

/-- Whether the word of a step was no instruction. -/
def Executed.isUnknown (e : Executed) : Bool :=
  match e.outcome with
  | .unknown _ => true
  | _ => false

/-- The pictures right after those steps that left the draw flag up, in order. -/
def pictures (steps : List Executed) : List Screen :=
  (steps.filter (·.after.drawFlag)).map (·.after.screen)

@[simp] theorem pictures_nil : pictures [] = [] := rfl

theorem pictures_append (steps later : List Executed) :
    pictures (steps ++ later) = pictures steps ++ pictures later := by
  simp [pictures]

theorem pictures_of_up {e : Executed} (h : e.after.drawFlag = true) :
    pictures [e] = [e.after.screen] := by
  simp [pictures, h]

theorem pictures_of_down {e : Executed} (h : e.after.drawFlag = false) : pictures [e] = [] := by
  simp [pictures, h]

/-- The journal after a step: its outcome is reported and its word told to an observer. -/
def Journal.recordStep (t : Option Tracer) (j : Journal) (e : Executed) : Journal :=
  (j.reportOutcome e.before.pc e.outcome).tell (.ofWord e.before.pc e.before.fetched) t

/-- The journal after a step of a tick, which is followed by a picture if the draw flag is up. -/
def Journal.recordTurn (t : Option Tracer) (j : Journal) (e : Executed) : Journal :=
  if e.after.drawFlag then (j.recordStep t e).paint e.after.screen else j.recordStep t e

/-- Telling an observer of a step shows no picture. -/
theorem Journal.frames_recordStep (t : Option Tracer) (j : Journal) (e : Executed) :
    (j.recordStep t e).frames = j.frames := by
  have hr : (j.reportOutcome e.before.pc e.outcome).frames = j.frames := by
    cases e.outcome <;> rfl
  rw [Journal.recordStep, ← hr]
  unfold Journal.tell
  split
  · rfl
  · rfl
  · split <;> rfl

/-- The pictures of a journal after steps of a tick: those that were there, and those of the steps
that left the draw flag up. -/
theorem Journal.frames_recordTurns (t : Option Tracer) (j : Journal) (steps : List Executed) :
    (steps.foldl (recordTurn t) j).frames.toList = j.frames.toList ++ pictures steps := by
  induction steps generalizing j with
  | nil => simp
  | cons e rest ih =>
    rw [List.foldl_cons, ih, ← List.singleton_append, pictures_append, ← List.append_assoc]
    cases hd : e.after.drawFlag with
    | true => simp [recordTurn, hd, pictures_of_up hd, paint, frames_recordStep]
    | false => simp [recordTurn, hd, pictures_of_down hd, frames_recordStep]

namespace Host

variable {h : Host} {m : Machine} {outcome : StepOutcome} {f : Fault}

/-- The host with another number of steps to a tick. -/
def withPace (h : Host) (n : Nat) : Host :=
  { h with stepsPerTick := n }

/-- The host after steps of a tick that left the machine `m`. -/
def afterSteps (h : Host) (m : Machine) (steps : List Executed) : Host :=
  { h with
    machine := m
    unknownWords := h.unknownWords + steps.countP Executed.isUnknown
    journal := steps.foldl (Journal.recordTurn h.tracer) h.journal }

/-! ### Turns of a host -/

theorem step_of_step (hs : h.machine.step = .ok (outcome, m)) :
    h.step = .ok (outcome,
      { h with
        machine := m
        journal := h.journal.recordStep h.tracer ⟨h.machine, outcome, m⟩ }) := by
  simp [step, hs, Journal.recordStep]

theorem step_of_fault (hs : h.machine.step = .error f) : h.step = .error ⟨f, h.journal⟩ := by
  simp [step, hs]

theorem turn_of_step (hs : h.machine.step = .ok (outcome, m)) :
    h.turn = .ok (h.afterSteps m.clearDrawFlag [⟨h.machine, outcome, m⟩]) := by
  rw [turn, step_of_step hs]
  cases hd : m.drawFlag with
  | true =>
    cases outcome <;> simp [count, paint, afterSteps, Journal.recordTurn, hd, Executed.isUnknown]
  | false =>
    have hm : m.clearDrawFlag = m := by rw [Machine.clearDrawFlag, ← hd]
    rw [hm]
    cases outcome <;> simp [count, paint, afterSteps, Journal.recordTurn, hd, Executed.isUnknown]

theorem turn_of_fault (hs : h.machine.step = .error f) : h.turn = .error ⟨f, h.journal⟩ := by
  rw [turn, step_of_fault hs]

/-- Steps of a tick in two parts. -/
theorem afterSteps_append (h : Host) (m m' : Machine) (steps later : List Executed) :
    (h.afterSteps m steps).afterSteps m' later = h.afterSteps m' (steps ++ later) := by
  simp [afterSteps, List.countP_append, Nat.add_assoc]

/-- A batch is turns of the machine: it leaves the machine that they leave, or crashes with the
fault that ends them, and either way its journal is that of the steps they make. -/
theorem batch_eq (n : Nat) (h : Host) :
    batch n h =
      match h.machine.afterTurns n with
      | .ok m => .ok (h.afterSteps m (h.machine.turns n))
      | .error f =>
        .error ⟨f, (h.machine.turns n).foldl (Journal.recordTurn h.tracer) h.journal⟩ := by
  induction n generalizing h with
  | zero => rfl
  | succ n ih =>
    rw [batch]
    cases hr : h.machine.isRunning with
    | false =>
      rw [Machine.afterTurns_of_stopped hr, Machine.turns_of_stopped hr]
      rfl
    | true =>
      cases hs : h.machine.step with
      | error f =>
        rw [turn_of_fault hs, Machine.afterTurns_of_fault hr hs, Machine.turns_of_fault hs]
        rfl
      | ok r =>
        rw [turn_of_step hs, Machine.afterTurns_of_step hr hs, Machine.turns_of_step hr hs]
        simp only [if_true]
        rw [ih]
        simp only [afterSteps_append]
        rfl

/-! ### Ticks -/

variable {n : Nat}

theorem tick_of_ok (hm : h.machine.afterTurns n = .ok m) :
    (h.withPace n).tick = .ok (if m.isRunning then .running else .stopped,
      (h.afterSteps m (h.machine.turns n)).withPace n) := by
  have hb := batch_eq n (h.withPace n)
  rw [show (h.withPace n).machine.afterTurns n = .ok m from hm] at hb
  rw [tick, show (h.withPace n).stepsPerTick = n from rfl, hb]
  rfl

theorem tick_of_error (hm : h.machine.afterTurns n = .error f) :
    (h.withPace n).tick = .error ⟨f,
      (h.machine.turns n).foldl (Journal.recordTurn h.tracer) h.journal⟩ := by
  have hb := batch_eq n (h.withPace n)
  rw [show (h.withPace n).machine.afterTurns n = .error f from hm] at hb
  rw [tick, show (h.withPace n).stepsPerTick = n from rfl, hb]
  rfl

/-- A flag that is up when the turns begin shows a picture after the first of them. -/
theorem pictures_of_drawFlag {e : Executed} {rest : List Executed}
    (hd : m.drawFlag = true) (ht : m.turns n = e :: rest) :
    pictures (m.turns n) = e.after.screen :: pictures rest := by
  have he : e.after.drawFlag = true := Machine.drawFlag_of_turns hd ht
  rw [ht, ← List.singleton_append, pictures_append, pictures_of_up he]
  rfl

/-- A tick of `a + b` steps is a tick of `a` steps and then one of `b` steps. -/
theorem tick_add (h : Host) (a b : Nat) :
    (h.withPace (a + b)).tick = do
      let (_, h₁) ← (h.withPace a).tick
      let (outcome, h₂) ← (h₁.withPace b).tick
      return (outcome, h₂.withPace (a + b)) := by
  have hab := Machine.afterTurns_add a b h.machine
  have ht := Machine.turns_add a b h.machine
  cases ha : h.machine.afterTurns a with
  | error f =>
    -- the first part crashes, and with it the whole
    simp only [ha, List.append_nil] at hab ht
    rw [tick_of_error hab, tick_of_error ha, ht]
    rfl
  | ok m =>
    simp only [ha] at hab ht
    rw [tick_of_ok ha]
    show _ = Except.bind ((h.afterSteps m (h.machine.turns a)).withPace b).tick _
    cases hb : m.afterTurns b with
    | error f =>
      rw [tick_of_error (hab.trans hb), tick_of_error (f := f) hb, ht, List.foldl_append]
      rfl
    | ok m' =>
      rw [tick_of_ok (hab.trans hb), tick_of_ok (m := m') hb, ht, ← afterSteps_append]
      rfl

/-- **A tick is turns of the machine.** A tick of `n` steps ends in a fault exactly when `n` turns
of the machine do, with the same fault. Otherwise it leaves the machine that the turns leave, shows
the pictures right after those steps that left the draw flag up, counts the steps whose word was no
instruction, and tells whether that machine is running; a flag that is up at the beginning shows a
picture after the first step. What is shown before a fault is told alike. And a tick of `a + b`
steps is a tick of `a` steps followed by one of `b` steps, in everything the host holds, in its
outcome, and in the crash if there is one. -/
theorem tick_refines_turns (h : Host) :
    (∀ n f, (∃ j, (h.withPace n).tick = .error ⟨f, j⟩) ↔ h.machine.afterTurns n = .error f)
    ∧ (∀ n c, (h.withPace n).tick = .error c →
        c.journal.frames.toList = h.journal.frames.toList ++ pictures (h.machine.turns n))
    ∧ (∀ n m, h.machine.afterTurns n = .ok m →
        ∃ h', (h.withPace n).tick = .ok (if m.isRunning then .running else .stopped, h')
          ∧ h'.machine = m
          ∧ h'.journal.frames.toList = h.journal.frames.toList ++ pictures (h.machine.turns n)
          ∧ h'.unknownWords = h.unknownWords + (h.machine.turns n).countP Executed.isUnknown)
    ∧ (∀ n e rest, h.machine.drawFlag = true → h.machine.turns n = e :: rest →
        pictures (h.machine.turns n) = e.after.screen :: pictures rest)
    ∧ (∀ a b, (h.withPace (a + b)).tick = do
        let (_, h₁) ← (h.withPace a).tick
        let (outcome, h₂) ← (h₁.withPace b).tick
        return (outcome, h₂.withPace (a + b))) := by
  refine ⟨?_, ?_, ?_, ?_, h.tick_add⟩
  · -- the fault
    intro n f
    constructor
    · rintro ⟨j, hj⟩
      cases hm : h.machine.afterTurns n with
      | ok m => rw [tick_of_ok hm] at hj; cases hj
      | error g => rw [tick_of_error hm] at hj; cases hj; rfl
    · intro hm
      exact ⟨_, tick_of_error hm⟩
  · -- the pictures before a fault
    intro n c hc
    cases hm : h.machine.afterTurns n with
    | ok m => rw [tick_of_ok hm] at hc; cases hc
    | error g =>
      rw [tick_of_error hm] at hc
      cases hc
      exact Journal.frames_recordTurns _ _ _
  · -- the host after the tick
    intro n m hm
    refine ⟨_, tick_of_ok hm, rfl, ?_, rfl⟩
    exact Journal.frames_recordTurns _ _ _
  · intro n e rest hd ht
    exact pictures_of_drawFlag hd ht

end Host

end ChipEight
