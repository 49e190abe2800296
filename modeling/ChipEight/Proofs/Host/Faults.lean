import ChipEight.Proofs.Checked.Agreement
import ChipEight.Proofs.Host.Run

namespace ChipEight

/-!
# Faults — the two ways in which a step can fail

Wherever a run of a new machine leads, the call stack is within its capacity and the program within
the memory. From there a step fails in two cases only, a return with no address stored and a call
with every slot taken; no other word has a sum overflow, a place missed or a check fail, whatever
the machine holds, and neither has anything that a host asks the machine for.

* `Machine.Bounded` — the invariant, with `Machine.Bounded.step` and `Machine.Bounded.act`;
* `Machine.Path.bounded` — the invariant along paths;
* `Machine.FaultsWith` — the two cases, each with its text;
* `Machine.step_faults_iff`, `Checked.step_refused_iff` — a step fails in those cases and no other;
* `Host.faults_of_reachable` — all of it, for the hosts that runs reach.
-/

namespace Machine

variable {start m m' : Machine} {es : List Event} {outcome : StepOutcome} {a : Action}
  {text : String}

/-! ### Bounds -/

/-- The call stack is within its capacity, and the program within the memory. -/
structure Bounded (m : Machine) : Prop where
  /-- No more slots are taken than there are. -/
  depth_le : m.stack.depth ≤ 16
  /-- The program fits above its start. -/
  programSize_le : m.programSize ≤ 3584

/-- A new machine has no call in progress and no program. -/
theorem bounded_ofSeed (seed : UInt64) : (ofSeed seed).Bounded where
  depth_le := Nat.zero_le _
  programSize_le := Nat.zero_le _

/-- A step keeps the bounds; the size of the program is nothing that it reaches. -/
theorem Bounded.step (hm : m.Bounded) (h : m.step = .ok (outcome, m')) : m'.Bounded where
  depth_le := depth_le_of_step h hm.depth_le
  programSize_le := by
    obtain ⟨m₁, he, rfl⟩ := step_eq_ok_iff.1 h
    have hsize : m₁.programSize = m.fetch.programSize := (execute_fixed he).1
    show m₁.programSize ≤ 3584
    rw [hsize]
    exact hm.programSize_le

/-- Loading is the only action that changes the size of the program, and it takes none that is too
large. -/
theorem Bounded.act (hm : m.Bounded) (a : Action) : (m.act a).Bounded where
  depth_le := by
    rw [stack_act]
    exact hm.depth_le
  programSize_le := by
    cases a
    case load image =>
      simp only [Machine.act]
      split
      case h_1 m' h =>
        obtain ⟨⟨-, hsize⟩, rfl⟩ := load_eq_ok_iff.1 h
        exact hsize
      case h_2 => exact hm.programSize_le
    all_goals exact hm.programSize_le

theorem Path.bounded (hs : start.Bounded) (hp : start.Path es m) : m.Bounded :=
  hp.induction (P := fun _ m => m.Bounded) hs
    (fun _ _ _ _ hm h => hm.step h)
    (fun _ _ a hm => hm.act a)

/-! ### Steps that fail -/

/-- Whether the next step fails under a text: the word is a return with no address stored, or a call
with every slot taken. -/
def FaultsWith (m : Machine) (text : String) : Prop :=
  (Instruction.decode m.fetched = .ret ∧ m.stack.depth = 0
    ∧ text = "attempt to subtract with overflow")
  ∨ ((∃ a, Instruction.decode m.fetched = .call a) ∧ m.stack.depth = 16
    ∧ text = "index out of bounds: the len is 16 but the index is 16")

/-- A step of the machine fails in the two cases and in no other. -/
theorem step_faults_iff (hd : m.stack.depth ≤ 16) :
    (∃ f, m.step = .error f ∧ f.message = text) ↔ m.FaultsWith text := by
  constructor
  · rintro ⟨f, hf, rfl⟩
    rcases execute_eq_error_iff.1 (step_eq_error_iff.1 hf) with ⟨hi, h0, rfl⟩ | ⟨hi, hfull, rfl⟩
    · exact .inl ⟨hi, h0, rfl⟩
    · exact .inr ⟨hi, Nat.le_antisymm hd hfull, rfl⟩
  · rintro (⟨hi, h0, rfl⟩ | ⟨hi, hfull, rfl⟩)
    · exact ⟨.returnWithoutCall,
        step_eq_error_iff.2 (execute_eq_error_iff.2 (.inl ⟨hi, h0, rfl⟩)), rfl⟩
    · exact ⟨.callTooDeep,
        step_eq_error_iff.2 (execute_eq_error_iff.2 (.inr ⟨hi, Nat.le_of_eq hfull.symm, rfl⟩)), rfl⟩

end Machine

namespace Checked

variable {m : Machine} {s : Screen} {text : String}

/-- A step of the checked machine is refused in the two cases and in no other. -/
theorem step_refused_iff (hd : m.stack.depth ≤ 16) :
    (∃ r, step m = .error r ∧ r.message = text) ↔ m.FaultsWith text := by
  rw [← Machine.step_faults_iff hd, step_eq hd]
  cases hm : m.step with
  | ok r =>
    constructor
    · rintro ⟨r', h, -⟩
      cases h
    · rintro ⟨f, h, -⟩
      cases h
  | error f =>
    constructor
    · rintro ⟨r, h, rfl⟩
      cases h
      exact ⟨f, rfl, (Refusal.message_ofFault f).symm⟩
    · rintro ⟨g, h, rfl⟩
      cases h
      exact ⟨_, rfl, Refusal.message_ofFault f⟩

/-- Asking for a pixel gives the pixel in its place, and unset where there is no place. -/
theorem pixel_getD (s : Screen) (x y : Nat) :
    s.pixel x y = (pixel s y x).toOption.getD false := by
  by_cases hy : y < 32
  · by_cases hx : x < 64
    · rw [pixel_eq hy hx]
      rfl
    · rw [pixel, get_of_lt hy, ok_bind, if_neg hx, Screen.pixel_of_lt hy,
        BitVec.getMsbD_of_ge _ _ (Nat.le_of_not_lt hx)]
      rfl
  · rw [pixel, get, dif_neg hy, error_bind, Screen.pixel_of_le (Nat.le_of_not_lt hy)]
    rfl

end Checked

namespace Host

variable {h : Host} {text : String}

/-- A host that a run reaches has a machine within the bounds. -/
theorem Reachable.bounded (hr : h.Reachable) : h.machine.Bounded := by
  obtain ⟨seed, n, es, hrun⟩ := hr
  exact hrun.path.bounded (Machine.bounded_ofSeed seed)

/-- A step of a host fails when the step of its machine does. -/
theorem step_faults_iff_machine :
    (∃ c, h.step = .error c ∧ c.fault.message = text)
      ↔ ∃ f, h.machine.step = .error f ∧ f.message = text := by
  cases hm : h.machine.step with
  | ok r =>
    rw [step_of_step hm]
    simp
  | error f =>
    rw [step_of_fault hm]
    simp

/-- **Two faults and no other.** On a host that a run of a new machine reaches, the call stack is
within its capacity and the program within the memory. The next step fails exactly when its word is
a return with no address stored or a call with every slot taken, under the text of the case, and so
it does with every sum and every place checked; where it does not fail, the checked step is the
step. Checked alike, no load is refused, whatever the image, and neither is the question whether the
machine is running, the list of return addresses, a snapshot, or a pixel, on the screen or off
it. -/
theorem faults_of_reachable (hr : h.Reachable) :
    h.machine.stack.depth ≤ 16 ∧ h.machine.programSize ≤ 3584
    ∧ (∀ text, (∃ c, h.step = .error c ∧ c.fault.message = text) ↔ h.machine.FaultsWith text)
    ∧ (∀ text, (∃ r, Checked.step h.machine = .error r ∧ r.message = text)
        ↔ h.machine.FaultsWith text)
    ∧ (∀ r, Checked.step h.machine = .ok r ↔ h.machine.step = .ok r)
    ∧ (∀ image, Checked.load h.machine image = .ok (h.machine.load image))
    ∧ Checked.isRunning h.machine = .ok h.machine.isRunning
    ∧ Checked.stack h.machine = .ok h.machine.stack.toList
    ∧ Checked.registerText h.machine = .ok h.machine.registerText
    ∧ Checked.memoryText h.machine.memory = .ok h.machine.memory.text
    ∧ Checked.screenText h.machine.screen = .ok h.machine.screen.text
    ∧ (∀ x y, h.machine.screen.pixel x y
        = (Checked.pixel h.machine.screen y x).toOption.getD false) := by
  have hd := hr.bounded.depth_le
  have hsize := hr.bounded.programSize_le
  refine ⟨hd, hsize, ?_, ?_, ?_, Checked.load_eq _, Checked.isRunning_eq hsize,
    Checked.stack_eq hd, Checked.registerText_eq hd, Checked.memoryText_eq _,
    Checked.screenText_eq _, Checked.pixel_getD _⟩
  · intro text
    rw [step_faults_iff_machine]
    exact Machine.step_faults_iff hd
  · intro text
    exact Checked.step_refused_iff hd
  · intro r
    rw [Checked.step_eq hd]
    cases h.machine.step with
    | ok r' =>
      constructor
      · intro h'
        cases h'
        rfl
      · intro h'
        cases h'
        rfl
    | error f =>
      constructor
      · intro h'
        cases h'
      · intro h'
        cases h'

/-- A program that is a return. -/
def returnOnly : Array UInt8 := #[0x00, 0xEE]

theorem faults_of_reachable_returnOnly :
    ∃ h : Host, h.Reachable
      ∧ (∃ c, h.step = .error c ∧ c.fault.message = "attempt to subtract with overflow")
      ∧ (∃ r, Checked.step h.machine = .error r
          ∧ r.message = "attempt to subtract with overflow") := by
  let m₁ : Machine :=
    { Machine.ofSeed 0 with memory := Memory.initial.overlay returnOnly, programSize := 2 }
  have hret : Instruction.decode m₁.fetched = .ret := by
    rw [Machine.fetched_overlay (m := m₁) (k := 0) rfl rfl (by decide) rfl rfl]
    decide
  let h₁ : Host := { ofSeed 0 10 with machine := m₁, journal := ⟨#[], #[], #[.loaded 2]⟩ }
  have hr₁ : h₁.Reachable :=
    ⟨0, 10, _, Run.nil.perform (a := .load returnOnly) rfl⟩
  obtain ⟨-, -, hstep, hchecked, -⟩ := faults_of_reachable hr₁
  have hfaults : h₁.machine.FaultsWith "attempt to subtract with overflow" :=
    .inl ⟨hret, rfl, rfl⟩
  exact ⟨h₁, hr₁, (hstep _).2 hfaults, (hchecked _).2 hfaults⟩

end Host

end ChipEight
