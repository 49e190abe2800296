import ChipEight.Proofs.Machine.Turns

namespace ChipEight

/-!
# Steps — steps that are asked for one after the other

A host can ask for steps directly: for a number of them, whether or not the machine is running, or
for as many as the machine makes while it is running. Unlike turns, they leave the draw flag where
it is. No instruction looks at that flag, so that turns and steps come to the same machine but for
the flag.

* `SameResult` — results of steps with the same fault, or the same outcome and related machines;
* `SameResult.step` — what an instruction and a count of the timers keep, a step keeps;
* `Machine.steps`, `Machine.afterSteps` — a number of steps, and the machine that they leave;
* `Machine.run` — steps as long as the machine is running, up to a limit;
* `Machine.SameButDrawFlag` — machines that differ in the draw flag at most;
* `Machine.afterTurns_eq_run` — turns against steps of a running machine.
-/

/-! ### Results of steps -/

/-- Two results of a step that are the same fault, or the same outcome with related machines. -/
inductive SameResult (R : Machine → Machine → Prop) :
    Except Fault (StepOutcome × Machine) → Except Fault (StepOutcome × Machine) → Prop
  /-- Both steps failed alike. -/
  | fault (f : Fault) : SameResult R (.error f) (.error f)
  /-- Both steps came to the same. -/
  | done (outcome : StepOutcome) {m k : Machine} (h : R m k) :
      SameResult R (.ok (outcome, m)) (.ok (outcome, k))

/-- Steps that succeed with the same result leave related machines. -/
theorem SameResult.related {R : Machine → Machine → Prop} {outcome outcome' : StepOutcome}
    {m k : Machine} (h : SameResult R (.ok (outcome, m)) (.ok (outcome', k))) : R m k := by
  cases h with
  | done _ h => exact h

/-- Related results of one instruction give related results of the step, if a count of the timers
keeps the relation. -/
theorem SameResult.step {R : Machine → Machine → Prop} {m k : Machine} (hw : m.fetched = k.fetched)
    (he : SameResult R (m.fetch.execute (.decode m.fetched)) (k.fetch.execute (.decode m.fetched)))
    (hc : ∀ {m k : Machine}, R m k → R m.countDown k.countDown) : SameResult R m.step k.step := by
  rw [Machine.step, Machine.step, ← hw]
  generalize m.fetch.execute (.decode m.fetched) = r,
    k.fetch.execute (.decode m.fetched) = s at he
  cases he with
  | fault f => exact .fault f
  | done outcome h => exact .done outcome (hc h)

namespace Machine

variable {m m' k : Machine} {n : Nat} {outcome : StepOutcome} {f : Fault}

/-! ### A number of steps -/

/-- The steps that a machine makes one after the other, `n` at most, whether or not it is running. A
step that fails ends them and is not counted. -/
def steps : Nat → Machine → List Executed
  | 0, _ => []
  | n + 1, m =>
    match m.step with
    | .ok (outcome, m') => ⟨m, outcome, m'⟩ :: steps n m'
    | .error _ => []

/-- The machine that `n` steps leave, or the fault of the step that failed. -/
def afterSteps : Nat → Machine → Except Fault Machine
  | 0, m => .ok m
  | n + 1, m =>
    match m.step with
    | .ok (_, m') => afterSteps n m'
    | .error f => .error f

theorem steps_of_step (hs : m.step = .ok (outcome, m')) :
    m.steps (n + 1) = ⟨m, outcome, m'⟩ :: m'.steps n := by
  simp [steps, hs]

theorem afterSteps_of_step (hs : m.step = .ok (outcome, m')) :
    m.afterSteps (n + 1) = m'.afterSteps n := by
  simp [afterSteps, hs]

theorem steps_of_fault (hs : m.step = .error f) : m.steps (n + 1) = [] := by
  simp [steps, hs]

theorem afterSteps_of_fault (hs : m.step = .error f) : m.afterSteps (n + 1) = .error f := by
  simp [afterSteps, hs]

/-! ### Steps of a running machine -/

/-- The machine after steps made as long as it is running, `n` at most, or the fault of the step
that failed. -/
def run : Nat → Machine → Except Fault Machine
  | 0, m => .ok m
  | n + 1, m =>
    if m.isRunning then
      match m.step with
      | .ok (_, m') => run n m'
      | .error f => .error f
    else
      .ok m

theorem run_of_stopped (h : m.isRunning = false) : m.run n = .ok m := by
  cases n <;> simp [run, h]

theorem run_of_step (h : m.isRunning = true) (hs : m.step = .ok (outcome, m')) :
    m.run (n + 1) = m'.run n := by
  simp [run, h, hs]

theorem run_of_fault (h : m.isRunning = true) (hs : m.step = .error f) :
    m.run (n + 1) = .error f := by
  simp [run, h, hs]

/-! ### Machines that differ in the draw flag -/

/-- Two machines that differ in the draw flag at most. -/
def SameButDrawFlag (m k : Machine) : Prop :=
  m.clearDrawFlag = k.clearDrawFlag

theorem SameButDrawFlag.eq_with (h : m.SameButDrawFlag k) :
    k = { m with drawFlag := k.drawFlag } := by
  obtain ⟨_⟩ := m
  obtain ⟨_⟩ := k
  cases h
  rfl

theorem SameButDrawFlag.isRunning_eq (h : m.SameButDrawFlag k) : m.isRunning = k.isRunning := by
  rw [h.eq_with]
  rfl

/-- No instruction looks at the draw flag. -/
theorem SameButDrawFlag.execute (h : m.SameButDrawFlag k) (i : Instruction) :
    SameResult SameButDrawFlag (m.execute i) (k.execute i) := by
  rw [h.eq_with]
  generalize k.drawFlag = b
  cases i
  case ret =>
    simp only [Machine.execute]
    cases m.stack.pop? with
    | none => exact .fault _
    | some p => exact .done _ rfl
  case call a =>
    simp only [Machine.execute]
    cases m.stack.push? m.pc with
    | none => exact .fault _
    | some s => exact .done _ rfl
  case awaitKey x =>
    simp only [Machine.execute]
    cases m.keypad.firstDown <;> exact .done _ rfl
  all_goals exact .done _ rfl

theorem SameButDrawFlag.step (h : m.SameButDrawFlag k) :
    SameResult SameButDrawFlag m.step k.step := by
  have hw : m.fetched = k.fetched := by
    rw [h.eq_with]
    rfl
  have hf : m.fetch.SameButDrawFlag k.fetch := by
    rw [h.eq_with]
    rfl
  refine SameResult.step hw (hf.execute _) fun {m k} h => ?_
  rw [h.eq_with]
  rfl

/-- Steps of running machines that differ in the draw flag go on differing in nothing else. -/
theorem SameButDrawFlag.run (h : m.SameButDrawFlag k) (n : Nat) :
    (m.run n).map clearDrawFlag = (k.run n).map clearDrawFlag := by
  induction n generalizing m k with
  | zero => exact congrArg Except.ok h
  | succ n ih =>
    have hrun := h.isRunning_eq
    cases hr : m.isRunning with
    | false =>
      rw [run_of_stopped hr, run_of_stopped (hrun.symm.trans hr)]
      exact congrArg Except.ok h
    | true =>
      have hs := h.step
      generalize hm : m.step = r, hk : k.step = s at hs
      cases hs with
      | fault f => rw [run_of_fault hr hm, run_of_fault (hrun.symm.trans hr) hk]
      | done outcome h' =>
        rw [run_of_step hr hm, run_of_step (hrun.symm.trans hr) hk]
        exact ih h'

/-- Turns leave the machine that steps of the running machine leave, but for the draw flag, or end
in the same fault. -/
theorem afterTurns_eq_run (n : Nat) (m : Machine) :
    (m.afterTurns n).map clearDrawFlag = (m.run n).map clearDrawFlag := by
  induction n generalizing m with
  | zero => rfl
  | succ n ih =>
    cases hr : m.isRunning with
    | false => rw [afterTurns_of_stopped hr, run_of_stopped hr]
    | true =>
      cases hs : m.step with
      | error f => rw [afterTurns_of_fault hr hs, run_of_fault hr hs]
      | ok r =>
        have hflag : r.2.clearDrawFlag.SameButDrawFlag r.2 := rfl
        rw [afterTurns_of_step hr hs, run_of_step hr hs, ih, hflag.run n]

end Machine

end ChipEight
