import ChipEight.Proofs.Host.Omission

namespace ChipEight

/-!
# Pauses — a session goes on as if it had never been paused

The switch of a machine is the host's alone. No instruction looks at it or moves it, and the only
thing that it decides is whether a tick makes steps: a tick that begins while the switch is off does
nothing at all. So a session comes to the same, but for the switch, without everything that moves
the switch and without the ticks that found it off.

* `Action.movesSwitch`, `Action.switched` — the actions that move the switch, and where they put it;
* `awake` — a session without them and without the ticks that find the switch off;
* `Switched` — where the last halt or resume and the toggles after it leave the switch;
* `Machine.step_resume`, `Machine.running_of_step` — the switch and one step;
* `Host.pauses` — the omission, with `Host.thinned_awake` for sessions;
* `Host.pauses_are_transparent` — what is left of a session.
-/

/-! ### The switch in a session -/

/-- Whether an action moves the switch. -/
def Action.movesSwitch : Action → Bool
  | .halt | .resume | .togglePause => true
  | _ => false

/-- Where an action leaves the switch. -/
def Action.switched (on : Bool) : Action → Bool
  | .halt => false
  | .resume => true
  | .togglePause => !on
  | _ => on

/-- A session without the actions that move the switch and without the ticks that find it off. `on`
is where the switch stands at the beginning. -/
def awake (on : Bool) : List Action → List Action
  | [] => []
  | a :: rest =>
    if a.movesSwitch || decide (a = .tick) && !on then awake (a.switched on) rest
    else a :: awake (a.switched on) rest

/-- Whether the switch is toggled an odd number of times. -/
def toggledOddly (actions : List Action) : Bool :=
  decide (actions.count .togglePause % 2 = 1)

/-- Where actions leave the switch: the last halt or resume puts it off or on, and every toggle
after that turns it over; without a halt or a resume the toggles count from where it stood. -/
structure Switched (start : Bool) (actions : List Action) (on : Bool) : Prop where
  /-- No action halts or resumes. -/
  untouched : (∀ a ∈ actions, a ≠ .halt ∧ a ≠ .resume) → on = (start ^^ toggledOddly actions)
  /-- The last of those that halt or resume halts. -/
  halted : ∀ pre post, actions = pre ++ .halt :: post → (∀ a ∈ post, a ≠ .halt ∧ a ≠ .resume) →
    on = toggledOddly post
  /-- The last of those that halt or resume resumes. -/
  resumed : ∀ pre post, actions = pre ++ .resume :: post → (∀ a ∈ post, a ≠ .halt ∧ a ≠ .resume) →
    on = !toggledOddly post

/-- Without a halt or a resume only toggles move the switch. -/
theorem foldl_switched_eq_xor {actions : List Action}
    (h : ∀ a ∈ actions, a ≠ .halt ∧ a ≠ .resume) (on : Bool) :
    actions.foldl Action.switched on = (on ^^ toggledOddly actions) := by
  induction actions generalizing on with
  | nil => simp [toggledOddly]
  | cons a rest ih =>
    obtain ⟨⟨hhalt, hresume⟩, hrest⟩ := List.forall_mem_cons.1 h
    rw [List.foldl_cons, ih hrest]
    by_cases ha : a = .togglePause
    · have hodd : toggledOddly (a :: rest) = !toggledOddly rest := by
        simp only [toggledOddly, ha, List.count_cons_self]
        grind
      rw [hodd, ha]
      simp [Action.switched]
    · have hsame : toggledOddly (a :: rest) = toggledOddly rest := by
        rw [toggledOddly, List.count_cons_of_ne ha]
        rfl
      have hon : a.switched on = on := by
        cases a <;> first | rfl | contradiction
      rw [hsame, hon]

theorem switched_foldl (start : Bool) (actions : List Action) :
    Switched start actions (actions.foldl Action.switched start) where
  untouched := fun h => foldl_switched_eq_xor h start
  halted := by
    rintro pre post rfl h
    rw [List.foldl_append, List.foldl_cons, foldl_switched_eq_xor h]
    simp [Action.switched]
  resumed := by
    rintro pre post rfl h
    rw [List.foldl_append, List.foldl_cons, foldl_switched_eq_xor h]
    simp [Action.switched]

/-! ### The switch and the machine -/

namespace Machine

variable {m m' : Machine} {outcome : StepOutcome}

/-- No instruction looks at the switch. -/
theorem execute_resume (m : Machine) (i : Instruction) :
    m.resume.execute i = (m.execute i).map (Prod.map id resume) := by
  cases i
  case ret =>
    simp only [execute, show m.resume.stack = m.stack from rfl]
    cases m.stack.pop? <;> rfl
  case call a =>
    simp only [execute, show m.resume.stack = m.stack from rfl, show m.resume.pc = m.pc from rfl]
    cases m.stack.push? m.pc <;> rfl
  case awaitKey x =>
    simp only [execute, show m.resume.keypad = m.keypad from rfl]
    cases m.keypad.firstDown <;> rfl
  all_goals rfl

/-- A step is the same step with the switch on. -/
theorem step_resume (m : Machine) : m.resume.step = m.step.map (Prod.map id resume) := by
  rw [step, step, show m.resume.fetched = m.fetched from rfl,
    show m.resume.fetch = m.fetch.resume from rfl, execute_resume]
  cases m.fetch.execute (.decode m.fetched) <;> rfl

/-- No instruction moves the switch. -/
theorem running_of_step (h : m.step = .ok (outcome, m')) : m'.running = m.running := by
  obtain ⟨m₁, he, rfl⟩ := step_eq_ok_iff.1 h
  have hrunning : m₁.running = m.fetch.running := (execute_fixed he).2.2.1
  exact hrunning

theorem Turned.running_eq {steps : List Executed} (ht : Turned m steps m') :
    m'.running = m.running := by
  induction ht with
  | nil => rfl
  | cons _ hs _ ih =>
    have hstep := running_of_step hs
    exact ih.trans hstep

theorem resume_of_running (h : m.running = true) : m.resume = m := by
  rw [resume, ← h]

theorem isRunning_of_paused (h : m.running = false) : m.isRunning = false := by
  rw [isRunning, h, Bool.and_false]

/-- Images load alike with the switch on. -/
theorem load_resume (m : Machine) (image : Array UInt8) :
    m.resume.load image = (m.load image).map resume := by
  rw [load, load, apply_ite (Except.map resume), apply_ite (Except.map resume)]
  rfl

end Machine

namespace Host

variable {h h' : Host} {a : Action} {reply : Reply}

/-- The host with the switch of its machine on. -/
def resumed (h : Host) : Host :=
  h.withMachine h.machine.resume

theorem resumed_of_running (hr : h.machine.running = true) : h.resumed = h := by
  rw [resumed, Machine.resume_of_running hr]
  rfl

/-- A tick that begins with the switch off does nothing. -/
theorem tick_of_paused (hp : h.machine.running = false) :
    h.perform .tick = .ok (.ticked .stopped, h) := by
  have hstopped := Machine.isRunning_of_paused hp
  have hafter : h.machine.afterTurns h.stepsPerTick = .ok h.machine :=
    Machine.afterTurns_of_stopped hstopped
  have ht : h.tick = _ := tick_of_ok hafter
  rw [perform, ht, Machine.turns_of_stopped hstopped, hstopped]
  rfl

/-- Where an action leaves the switch of the machine. -/
theorem running_of_perform (hp : h.perform a = .ok (reply, h')) :
    h'.machine.running = a.switched h.machine.running := by
  rcases perform_cases hp with ⟨outcome, m, rfl, hm, rfl⟩ | ⟨outcome, rfl, ht⟩ | ⟨hs, ht⟩
  · exact Machine.running_of_step hm
  · exact (Machine.turned_of_afterTurns (machine_of_tick ht)).running_eq
  · rw [(machine_of_perform hp hs ht).1]
    cases a
    case load image =>
      simp only [Machine.act]
      split
      case h_1 m' hm =>
        obtain ⟨-, rfl⟩ := Machine.load_eq_ok_iff.1 hm
        rfl
      case h_2 => rfl
    all_goals rfl

/-- Whether an action is left out: it moves the switch, or it is a tick that finds the switch
off. -/
def pausing (h : Host) (a : Action) : Bool :=
  a.movesSwitch || decide (a = .tick) && !h.machine.running

theorem perform_of_pausing (hp : h.pausing a = true) :
    ∃ reply h', h.perform a = .ok (reply, h') ∧ h'.resumed = h.resumed := by
  cases a
  case tick =>
    have hoff : h.machine.running = false := by simpa [pausing, Action.movesSwitch] using hp
    exact ⟨_, h, tick_of_paused hoff, rfl⟩
  case halt => exact ⟨_, _, rfl, rfl⟩
  case resume => exact ⟨_, _, rfl, rfl⟩
  case togglePause => exact ⟨_, _, rfl, rfl⟩
  all_goals simp [pausing, Action.movesSwitch] at hp

/-- All other actions come to the same with the switch on. -/
theorem perform_resumed (hp : h.pausing a = false) :
    h.resumed.perform a = (h.perform a).map (Prod.map id resumed) := by
  cases a
  case step =>
    have hs : h.resumed.machine.step = h.machine.step.map (Prod.map id Machine.resume) :=
      Machine.step_resume h.machine
    cases hm : h.machine.step with
    | error f =>
      rw [hm] at hs
      rw [perform, perform, step_of_fault hm, step_of_fault hs]
      rfl
    | ok r =>
      rw [hm] at hs
      rw [perform_step hm, perform_step hs]
      rfl
  case tick =>
    -- the switch is on already, and the steps of the tick leave it there
    have hon : h.machine.running = true := by simpa [pausing, Action.movesSwitch] using hp
    rw [resumed_of_running hon]
    cases hm : h.perform .tick with
    | error c => rfl
    | ok r =>
      have hon' : r.2.machine.running = true := (running_of_perform hm).trans hon
      exact congrArg (fun g => Except.ok (r.1, g)) (resumed_of_running hon').symm
  case load image =>
    simp only [perform, load, resumed, withMachine, Machine.load_resume]
    cases h.machine.load image <;> rfl
  case halt => cases hp
  case resume => cases hp
  case togglePause => cases hp
  all_goals rfl

/-- The switch, and what reaches nothing but the switch. -/
def pauses : Omission where
  host := resumed
  crash := id
  omits := pausing
  omitted := fun _ _ => perform_of_pausing
  kept := by
    intro h a ha
    rw [perform_resumed ha]
    cases h.perform a <;> rfl

/-- What is left of a session without its pauses. -/
theorem thinned_awake (h : Host) (actions : List Action) :
    pauses.Thinned h actions (awake h.machine.running actions) := by
  induction actions generalizing h with
  | nil => exact .nil h
  | cons a rest ih =>
    have hnext : ∀ reply h', h.perform a = .ok (reply, h') →
        pauses.Thinned h' rest (awake (a.switched h.machine.running) rest) := by
      intro reply h' hp
      rw [← running_of_perform hp]
      exact ih h'
    rw [awake]
    split
    case isTrue ha => exact .of_omits ha hnext
    case isFalse ha => exact .of_keeps (eq_false_of_ne_true ha) hnext

/-- The switch after a session is where its actions left it. -/
theorem running_of_performAll {actions : List Action} {replies : List Reply}
    (hp : h.performAll actions = .ok (replies, h')) :
    h'.machine.running = actions.foldl Action.switched h.machine.running := by
  induction actions generalizing h replies with
  | nil =>
    cases hp
    rfl
  | cons a rest ih =>
    obtain ⟨reply, h₁, later, ha, hrest, -⟩ := exists_of_performAll_cons hp
    rw [List.foldl_cons, ← running_of_perform ha]
    exact ih hrest

/-- **Pauses are transparent.** Let a session begin with the switch on, as it is on a machine that
was just loaded. Without the actions that move the switch, and without the ticks that begin while it
is off, the session ends in the same crash, if in one at all, and leaves the same host but for the
switch: the same machine, the same journal with all its pictures, the same count of words that are
no instruction. A tick that begins while the switch is off is answered with `stopped` and changes
nothing. The switch itself stands where the last halt or resume and the toggles after it put it, and
no step moves it. -/
theorem pauses_are_transparent (hon : h.machine.running = true) (actions : List Action) :
    ((h.performAll (awake true actions)).map Prod.snd
      = (h.performAll actions).map fun r => r.2.withMachine r.2.machine.resume)
    ∧ (∀ g : Host, g.machine.running = false → g.perform .tick = .ok (.ticked .stopped, g))
    ∧ (∀ replies h', h.performAll actions = .ok (replies, h') →
        Switched true actions h'.machine.running)
    ∧ ∀ (m m' : Machine) (outcome : StepOutcome), m.step = .ok (outcome, m') →
        m'.running = m.running := by
  refine ⟨?_, fun g => tick_of_paused, ?_, fun m m' outcome => Machine.running_of_step⟩
  · have hleft := (thinned_awake h actions).performAll
    rw [hon, show pauses.host h = h from resumed_of_running hon] at hleft
    rw [hleft]
    cases h.performAll actions <;> rfl
  · intro replies h' hp
    rw [running_of_performAll hp, hon]
    exact switched_foldl true actions

/-- A program that jumps to itself. -/
def jumpHere : Array UInt8 := #[0x12, 0x00]

/-- The tick between the halt and the toggle is the one that is left out. -/
theorem pauses_are_transparent_jumpHere :
    ∃ h h' : Host, h.performAll [.tick, .tick] = .ok ([.ticked .running, .ticked .running], h')
      ∧ (h.performAll [.tick, .halt, .tick, .togglePause, .tick]).map
        (fun r => r.2.withMachine r.2.machine.resume) = .ok h' := by
  let m : Machine :=
    { Machine.ofSeed 0 with memory := Memory.initial.overlay jumpHere, programSize := 2 }
  let m₁ : Machine := { m.fetch with pc := 0x200 }.countDown
  let m₂ : Machine := { m₁.fetch with pc := 0x200 }.countDown
  have hjump : Instruction.decode m.fetched = .jump 0x200 := by
    rw [Machine.fetched_overlay (m := m) (k := 0) rfl rfl (by decide) rfl rfl]
    decide
  have hstep₁ : m.step = .ok (.proceeded, m₁) := by rw [Machine.step, hjump]; rfl
  have hjump' : Instruction.decode m₁.fetched = .jump 0x200 := by
    rw [Machine.fetched_overlay (m := m₁) (k := 0) rfl rfl (by decide) rfl rfl]
    decide
  have hstep₂ : m₁.step = .ok (.proceeded, m₂) := by rw [Machine.step, hjump']; rfl
  let h : Host := ofMachine m 1
  let h₁ : Host := h.afterSteps m₁.clearDrawFlag [⟨m, .proceeded, m₁⟩]
  let h₂ : Host := h₁.afterSteps m₂.clearDrawFlag [⟨m₁, .proceeded, m₂⟩]
  have hrunning₁ : m₁.isRunning = true := by decide
  have hrunning₂ : m₂.isRunning = true := by decide
  have htick₁ : h.perform .tick = .ok (.ticked .running, h₁) := by
    rw [perform_tick_of_step (h := h) rfl (by decide) hstep₁, if_pos hrunning₁]
    rfl
  have htick₂ : h₁.perform .tick = .ok (.ticked .running, h₂) := by
    rw [perform_tick_of_step (h := h₁) rfl hrunning₁ hstep₂, if_pos hrunning₂]
    rfl
  have hsession :
      h.performAll [.tick, .tick] = .ok ([.ticked .running, .ticked .running], h₂) := by
    rw [performAll_of_perform htick₁, performAll_of_perform htick₂]
    rfl
  obtain ⟨hsame, -⟩ :=
    pauses_are_transparent (h := h) rfl [.tick, .halt, .tick, .togglePause, .tick]
  rw [show awake true [.tick, .halt, .tick, .togglePause, .tick] = [.tick, .tick] from rfl,
    hsession] at hsame
  exact ⟨h, h₂, hsession, hsame.symm⟩

end Host

end ChipEight
