import ChipEight.Proofs.Machine.Effects

namespace ChipEight

/-!
# Turns — steps of a running machine, its draw flag taken down after each

A turn looks whether the machine is running and, if so, makes a step and takes the draw flag down.
What a host does in a tick is told on the machine alone here, by the steps that so many turns make
and the machine that they leave.

* `Executed` — a step that was made, with the machine before and right after it;
* `Machine.turns` — the steps that turns make;
* `Machine.afterTurns` — the machine that they leave, or the fault that ends them;
* `Machine.Turned` — the two of them as a relation, by one turn at a time;
* `Machine.turns_add`, `Machine.afterTurns_add` — turns in two parts;
* `Machine.drawFlag_of_turns` — a flag that is up already is still up after the first step.
-/

/-- A step that was made. -/
structure Executed where
  /-- The machine that made the step. -/
  before : Machine
  /-- What the step came to. -/
  outcome : StepOutcome
  /-- The machine right after the step. -/
  after : Machine
deriving DecidableEq, Repr

/-- The instruction that a step executed. -/
def Executed.instruction (e : Executed) : Instruction :=
  .decode e.before.fetched

namespace Machine

/-- The steps that turns make, `n` turns at most. A step that fails ends them and is not counted. -/
def turns : Nat → Machine → List Executed
  | 0, _ => []
  | n + 1, m =>
    if m.isRunning then
      match m.step with
      | .ok (outcome, m') => ⟨m, outcome, m'⟩ :: turns n m'.clearDrawFlag
      | .error _ => []
    else
      []

/-- The machine that turns leave, `n` turns at most, or the fault of the step that failed. -/
def afterTurns : Nat → Machine → Except Fault Machine
  | 0, m => .ok m
  | n + 1, m =>
    if m.isRunning then
      match m.step with
      | .ok (_, m') => afterTurns n m'.clearDrawFlag
      | .error f => .error f
    else
      .ok m

variable {m m' : Machine} {n : Nat} {outcome : StepOutcome} {f : Fault}

/-! ### One turn -/

theorem turns_of_stopped (h : m.isRunning = false) : m.turns n = [] := by
  cases n <;> simp [turns, h]

theorem afterTurns_of_stopped (h : m.isRunning = false) : m.afterTurns n = .ok m := by
  cases n <;> simp [afterTurns, h]

theorem turns_of_step (h : m.isRunning = true) (hs : m.step = .ok (outcome, m')) :
    m.turns (n + 1) = ⟨m, outcome, m'⟩ :: m'.clearDrawFlag.turns n := by
  simp [turns, h, hs]

theorem afterTurns_of_step (h : m.isRunning = true) (hs : m.step = .ok (outcome, m')) :
    m.afterTurns (n + 1) = m'.clearDrawFlag.afterTurns n := by
  simp [afterTurns, h, hs]

theorem turns_of_fault (hs : m.step = .error f) : m.turns (n + 1) = [] := by
  simp [turns, hs]

theorem afterTurns_of_fault (h : m.isRunning = true) (hs : m.step = .error f) :
    m.afterTurns (n + 1) = .error f := by
  simp [afterTurns, h, hs]

/-- The steps that turns make from a machine and the machine that they leave. -/
inductive Turned : Machine → List Executed → Machine → Prop
  /-- No step was made. -/
  | nil (m : Machine) : Turned m [] m
  /-- A running machine made a step, and its draw flag was taken down. -/
  | cons {m m' m'' : Machine} {outcome : StepOutcome} {steps : List Executed} :
      m.isRunning = true → m.step = .ok (outcome, m') → Turned m'.clearDrawFlag steps m'' →
      Turned m (⟨m, outcome, m'⟩ :: steps) m''

/-- Turns that end in no fault are related. -/
theorem turned_of_afterTurns (ht : m.afterTurns n = .ok m') : Turned m (m.turns n) m' := by
  induction n generalizing m with
  | zero =>
    cases ht
    exact .nil _
  | succ n ih =>
    cases hr : m.isRunning with
    | false =>
      rw [afterTurns_of_stopped hr] at ht
      cases ht
      rw [turns_of_stopped hr]
      exact .nil _
    | true =>
      cases hs : m.step with
      | error f => rw [afterTurns_of_fault hr hs] at ht; cases ht
      | ok r =>
        rw [afterTurns_of_step hr hs] at ht
        rw [turns_of_step hr hs]
        exact .cons hr hs (ih ht)

/-! ### Turns in two parts -/

/-- `a + b` turns leave what `b` turns leave after `a` turns. -/
theorem afterTurns_add (a b : Nat) (m : Machine) :
    m.afterTurns (a + b) = (m.afterTurns a).bind (afterTurns b) := by
  induction a generalizing m with
  | zero => rw [Nat.zero_add]; rfl
  | succ a ih =>
    rw [Nat.succ_add]
    cases hr : m.isRunning with
    | false =>
      rw [afterTurns_of_stopped hr, afterTurns_of_stopped hr]
      exact (afterTurns_of_stopped hr).symm
    | true =>
      cases hs : m.step with
      | error f => rw [afterTurns_of_fault hr hs, afterTurns_of_fault hr hs]; rfl
      | ok r => rw [afterTurns_of_step hr hs, afterTurns_of_step hr hs]; exact ih _

/-- `a + b` turns make the steps of `a` turns and then, unless a fault ends those, the steps of `b`
turns from the machine that they leave. -/
theorem turns_add (a b : Nat) (m : Machine) :
    m.turns (a + b) = m.turns a ++
      match m.afterTurns a with
      | .ok m' => m'.turns b
      | .error _ => [] := by
  induction a generalizing m with
  | zero => rw [Nat.zero_add]; rfl
  | succ a ih =>
    rw [Nat.succ_add]
    cases hr : m.isRunning with
    | false =>
      rw [afterTurns_of_stopped hr, turns_of_stopped hr, turns_of_stopped hr]
      exact (turns_of_stopped hr).symm
    | true =>
      cases hs : m.step with
      | error f => rw [afterTurns_of_fault hr hs, turns_of_fault hs, turns_of_fault hs]; rfl
      | ok r =>
        rw [afterTurns_of_step hr hs, turns_of_step hr hs, turns_of_step hr hs, ih]
        rfl

/-! ### The draw flag -/

/-- A draw flag that is up stays up through a step. -/
theorem drawFlag_of_step (h : m.step = .ok (outcome, m')) (hd : m.drawFlag = true) :
    m'.drawFlag = true := by
  rcases screen_of_step h with ⟨-, hf⟩ | hf
  · exact hf.trans hd
  · exact hf

/-- A draw flag that is up before turns is up after the first step, whatever that step executed. -/
theorem drawFlag_of_turns {e : Executed} {rest : List Executed} (hd : m.drawFlag = true)
    (h : m.turns n = e :: rest) : e.after.drawFlag = true := by
  cases n with
  | zero => cases h
  | succ n =>
    cases hr : m.isRunning with
    | false => rw [turns_of_stopped hr] at h; cases h
    | true =>
      cases hs : m.step with
      | error f => rw [turns_of_fault hs] at h; cases h
      | ok r =>
        rw [turns_of_step hr hs] at h
        cases h
        exact drawFlag_of_step hs hd

end Machine

end ChipEight
