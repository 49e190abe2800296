import ChipEight.Host.Session
import ChipEight.Proofs.Host.Tick

namespace ChipEight

/-!
# Runs — what can happen to a host, and what has happened

A run is a session seen from outside: the events of its actions in order, each step with the machine
before and after it, whether it was asked for or was part of a tick. Only actions that succeed are
in a run. The number of steps to a tick may change in its course.

* `Event` — a step, a step of a tick, or an action that makes no step;
* `Host.events` — the events of an action;
* `Host.Run`, `Host.Reachable` — the runs from a host, and the hosts that runs of new machines
  reach;
* `Host.run_of_performAll` — every session is a run;
* `Machine.Path` — a run as its machine takes part in it, one event at a time;
* `Machine.Path.induction` — what every step and every action keep holds along a path;
* `Machine.Path.before_event`, `Machine.Path.exists_before` — each step of a path was made at the
  end of a path;
* `Host.Run.path`, `Host.Run.exists_path_trail` — every run is such a path, also when it goes on
  with a session that crashes.
-/

/-- One thing that happens to a host. -/
inductive Event where
  /-- A step that was asked for. -/
  | step (e : Executed)
  /-- A step of a tick. -/
  | turn (e : Executed)
  /-- An action that makes no step. -/
  | action (a : Action)
deriving DecidableEq, Repr

/-- The step of an event, if it is one. -/
def Event.executed? : Event → Option Executed
  | .step e => some e
  | .turn e => some e
  | .action _ => none

/-- The steps among events, in order. -/
def executed (events : List Event) : List Executed :=
  events.filterMap Event.executed?

@[simp] theorem executed_nil : executed [] = [] := rfl

@[simp] theorem executed_append (es ds : List Event) :
    executed (es ++ ds) = executed es ++ executed ds :=
  List.filterMap_append

theorem executed_map_turn (steps : List Executed) : executed (steps.map .turn) = steps := by
  induction steps with
  | nil => rfl
  | cons e rest ih => exact congrArg (e :: ·) ih

/-! ### Runs of a host -/

namespace Host

/-- The events of an action. -/
def events (h : Host) : Action → List Event
  | .step =>
    match h.machine.step with
    | .ok (outcome, m) => [.step ⟨h.machine, outcome, m⟩]
    | .error _ => []
  | .tick => (h.machine.turns h.stepsPerTick).map .turn
  | a => [.action a]

/-- The runs that begin with a host: their events, and the host that they reach. -/
inductive Run (start : Host) : List Event → Host → Prop
  /-- Nothing happened yet. -/
  | nil : Run start [] start
  /-- Ticks have another number of steps from now on. -/
  | pace {es : List Event} {h : Host} (n : Nat) : Run start es h → Run start es (h.withPace n)
  /-- An action succeeded. -/
  | perform {es : List Event} {h h' : Host} {a : Action} {reply : Reply} :
      Run start es h → h.perform a = .ok (reply, h') → Run start (es ++ h.events a) h'

/-- Whether a run of a new machine reaches a host. -/
def Reachable (h : Host) : Prop :=
  ∃ seed n es, (ofSeed seed n).Run es h

variable {start h h' : Host} {es ds : List Event} {a : Action} {reply : Reply}

/-- A run goes on with a run from the host that it reached. -/
theorem Run.append (hr : start.Run es h) (hd : h.Run ds h') : start.Run (es ++ ds) h' := by
  induction hd with
  | nil => rwa [List.append_nil]
  | pace n _ ih => exact ih.pace n
  | perform _ hp ih =>
    rw [← List.append_assoc]
    exact ih.perform hp

theorem perform_step {outcome : StepOutcome} {m : Machine}
    (hs : h.machine.step = .ok (outcome, m)) :
    h.perform .step = .ok (.stepped outcome,
      { h with
        machine := m
        journal := h.journal.recordStep h.tracer ⟨h.machine, outcome, m⟩ }) := by
  rw [perform, step_of_step hs]

/-- A tick of a single step. -/
theorem perform_tick_of_step {outcome : StepOutcome} {m : Machine} (hn : h.stepsPerTick = 1)
    (hr : h.machine.isRunning = true) (hs : h.machine.step = .ok (outcome, m)) :
    h.perform .tick
      = .ok (.ticked (if m.isRunning then .running else .stopped),
        h.afterSteps m.clearDrawFlag [⟨h.machine, outcome, m⟩]) := by
  have hafter : h.machine.afterTurns 1 = .ok m.clearDrawFlag := Machine.afterTurns_of_step hr hs
  have hturns : h.machine.turns 1 = [⟨h.machine, outcome, m⟩] := Machine.turns_of_step hr hs
  have ht := tick_of_ok hafter
  rw [hturns, ← hn] at ht
  have htick : h.tick = _ := ht
  rw [perform, htick]
  rfl

/-- A run goes on with a step that was asked for. -/
theorem Run.step {outcome : StepOutcome} {m : Machine} (hr : start.Run es h)
    (hs : h.machine.step = .ok (outcome, m)) :
    start.Run (es ++ [.step ⟨h.machine, outcome, m⟩])
      { h with
        machine := m
        journal := h.journal.recordStep h.tracer ⟨h.machine, outcome, m⟩ } := by
  have hp := hr.perform (perform_step hs)
  rwa [events, hs] at hp

/-- The events of the actions of a session, up to the action that crashes. -/
def trail (h : Host) : List Action → List Event
  | [] => []
  | a :: rest =>
    match h.perform a with
    | .ok (_, h') => h.events a ++ h'.trail rest
    | .error _ => h.events a

theorem trail_of_perform {rest : List Action} (hp : h.perform a = .ok (reply, h')) :
    h.trail (a :: rest) = h.events a ++ h'.trail rest := by
  rw [trail, hp]

theorem trail_of_crash {c : Crash} {rest : List Action} (hp : h.perform a = .error c) :
    h.trail (a :: rest) = h.events a := by
  rw [trail, hp]

theorem trail_singleton (a : Action) : h.trail [a] = h.events a := by
  rw [trail]
  cases h.perform a with
  | error c => rfl
  | ok r => exact List.append_nil _

theorem performAll_of_perform {rest : List Action} (hp : h.perform a = .ok (reply, h')) :
    h.performAll (a :: rest) = (h'.performAll rest).map fun r => (reply :: r.1, r.2) := by
  rw [performAll]
  simp only [hp]
  cases h'.performAll rest <;> rfl

theorem performAll_of_crash {c : Crash} {rest : List Action} (hp : h.perform a = .error c) :
    h.performAll (a :: rest) = .error c := by
  rw [performAll]
  simp only [hp]

/-- A session that ends without a crash begins with an action that succeeds and goes on with a
session that ends without a crash. -/
theorem exists_of_performAll_cons {rest : List Action} {replies : List Reply}
    (hp : h.performAll (a :: rest) = .ok (replies, h')) :
    ∃ reply h₁ later, h.perform a = .ok (reply, h₁) ∧ h₁.performAll rest = .ok (later, h')
      ∧ replies = reply :: later := by
  cases ha : h.perform a with
  | error c => rw [performAll_of_crash ha] at hp; cases hp
  | ok r =>
    rw [performAll_of_perform ha] at hp
    cases hrest : r.2.performAll rest with
    | error c => rw [hrest] at hp; cases hp
    | ok r' =>
      rw [hrest] at hp
      cases hp
      exact ⟨r.1, r.2, r'.1, rfl, hrest, rfl⟩

/-- A session that ends without a crash is a run. -/
theorem run_of_performAll {actions : List Action} {replies : List Reply}
    (hp : h.performAll actions = .ok (replies, h')) : h.Run (h.trail actions) h' := by
  induction actions generalizing h replies with
  | nil =>
    cases hp
    exact .nil
  | cons a rest ih =>
    obtain ⟨reply, h₁, later, ha, hrest, -⟩ := exists_of_performAll_cons hp
    have hfirst : h.Run ([] ++ h.events a) h₁ := Run.nil.perform ha
    rw [trail_of_perform ha]
    exact hfirst.append (ih hrest)

end Host

/-! ### Paths of a machine -/

namespace Machine

/-- The machine after an action, as far as the action makes no step. -/
def act (m : Machine) : Action → Machine
  | .load image =>
    match m.load image with
    | .ok m' => m'
    | .error _ => m
  | .keys k => m.withKeypad (m.keypad.move k)
  | .halt => m.halt
  | .resume => m.resume
  | .togglePause => m.togglePause
  | .countDown => m.countDown
  | .clearDrawFlag => m.clearDrawFlag
  | .takeDrawFlag => m.clearDrawFlag
  | .step => m
  | .tick => m
  | .trace _ => m

/-- No action reaches the counter, the index, the registers, the call stack, the screen, the last
word or the random bytes. -/
theorem act_fixed (m : Machine) (a : Action) :
    (m.act a).pc = m.pc ∧ (m.act a).index = m.index ∧ (m.act a).registers = m.registers
      ∧ (m.act a).stack = m.stack ∧ (m.act a).screen = m.screen ∧ (m.act a).word = m.word
      ∧ (m.act a).random = m.random := by
  cases a
  case load image =>
    simp only [act]
    split
    case h_1 m' h =>
      obtain ⟨-, rfl⟩ := load_eq_ok_iff.1 h
      exact ⟨rfl, rfl, rfl, rfl, rfl, rfl, rfl⟩
    case h_2 => exact ⟨rfl, rfl, rfl, rfl, rfl, rfl, rfl⟩
  all_goals exact ⟨rfl, rfl, rfl, rfl, rfl, rfl, rfl⟩

theorem stack_act (m : Machine) (a : Action) : (m.act a).stack = m.stack :=
  (act_fixed m a).2.2.2.1

/-- The paths that begin with a machine: their events, and the machine that they reach. -/
inductive Path (start : Machine) : List Event → Machine → Prop
  /-- Nothing happened yet. -/
  | nil : Path start [] start
  /-- A step was asked for. -/
  | step {es : List Event} {m m' : Machine} {outcome : StepOutcome} :
      Path start es m → m.step = .ok (outcome, m') →
      Path start (es ++ [.step ⟨m, outcome, m'⟩]) m'
  /-- A step was part of a tick. -/
  | turn {es : List Event} {m m' : Machine} {outcome : StepOutcome} :
      Path start es m → m.isRunning = true → m.step = .ok (outcome, m') →
      Path start (es ++ [.turn ⟨m, outcome, m'⟩]) m'.clearDrawFlag
  /-- An action made no step. -/
  | action {es : List Event} {m : Machine} (a : Action) :
      Path start es m → Path start (es ++ [.action a]) (m.act a)

variable {start m m' : Machine} {es : List Event} {n : Nat}

/-- A path goes on with turns. -/
theorem Path.turned {steps : List Executed} (hp : start.Path es m) (ht : Turned m steps m') :
    start.Path (es ++ steps.map .turn) m' := by
  induction ht generalizing es with
  | nil => rwa [List.map_nil, List.append_nil]
  | cons hr hs _ ih =>
    have hnext := ih (hp.turn hr hs)
    rwa [List.append_assoc, List.singleton_append] at hnext

/-- A path goes on with the steps that turns make, also when a fault ends them. -/
theorem Path.exists_turns (hp : start.Path es m) (n : Nat) :
    ∃ m', start.Path (es ++ (m.turns n).map .turn) m' := by
  induction n generalizing es m with
  | zero => exact ⟨m, by rwa [turns, List.map_nil, List.append_nil]⟩
  | succ n ih =>
    cases hr : m.isRunning with
    | false => exact ⟨m, by rwa [turns_of_stopped hr, List.map_nil, List.append_nil]⟩
    | true =>
      cases hs : m.step with
      | error f => exact ⟨m, by rwa [turns_of_fault hs, List.map_nil, List.append_nil]⟩
      | ok r =>
        obtain ⟨m', hm'⟩ := ih (hp.turn hr hs)
        rw [List.append_assoc] at hm'
        exact ⟨m', by rwa [turns_of_step hr hs, List.map_cons]⟩

/-- What a new machine has, and every step and every action keep, holds along a path. -/
theorem Path.induction {P : List Executed → Machine → Prop} (hp : start.Path es m)
    (hstart : P [] start)
    (hstep : ∀ steps m m' outcome, P steps m → m.step = .ok (outcome, m') →
      P (steps ++ [⟨m, outcome, m'⟩]) m')
    (hact : ∀ steps m a, P steps m → P steps (m.act a)) :
    P (executed es) m := by
  induction hp with
  | nil => exact hstart
  | step _ hs ih =>
    rw [executed_append]
    exact hstep _ _ _ _ ih hs
  | turn _ _ hs ih =>
    rw [executed_append]
    exact hact _ _ .clearDrawFlag (hstep _ _ _ _ ih hs)
  | action a _ ih =>
    rw [executed_append, show executed [.action a] = [] from rfl, List.append_nil]
    exact hact _ _ a ih

/-- A list with one more element, cut at an element: the cut is at the new element or before it. -/
theorem append_singleton_eq_append_cons {α : Type} {xs pre post : List α} {x e : α}
    (h : xs ++ [x] = pre ++ e :: post) :
    (xs = pre ∧ x = e ∧ post = []) ∨ ∃ post', xs = pre ++ e :: post' ∧ post = post' ++ [x] := by
  rcases List.eq_nil_or_concat post with rfl | ⟨post', y, rfl⟩
  · obtain ⟨hxs, hx⟩ := List.append_inj' h rfl
    exact .inl ⟨hxs, List.head_eq_of_cons_eq hx, rfl⟩
  · have h' : xs ++ [x] = (pre ++ e :: post') ++ [y] := by simpa using h
    obtain ⟨hxs, hx⟩ := List.append_inj' h' rfl
    obtain rfl := List.head_eq_of_cons_eq hx
    exact .inr ⟨post', hxs, List.concat_eq_append⟩

/-- A path leads up to each of its events that is a step. -/
theorem Path.before_event (hp : start.Path es m) {pre post : List Event} {d : Event} {e : Executed}
    (he : es = pre ++ d :: post) (hd : d.executed? = some e) :
    start.Path pre e.before ∧ e.before.step = .ok (e.outcome, e.after) := by
  induction hp generalizing post with
  | nil => exact absurd he (List.append_ne_nil_of_right_ne_nil pre (List.cons_ne_nil d post)).symm
  | step hp hs ih =>
    rcases append_singleton_eq_append_cons he with ⟨rfl, rfl, -⟩ | ⟨post', h', -⟩
    · cases hd
      exact ⟨hp, hs⟩
    · exact ih h'
  | turn hp _ hs ih =>
    rcases append_singleton_eq_append_cons he with ⟨rfl, rfl, -⟩ | ⟨post', h', -⟩
    · cases hd
      exact ⟨hp, hs⟩
    · exact ih h'
  | action a _ ih =>
    rcases append_singleton_eq_append_cons he with ⟨-, rfl, -⟩ | ⟨post', h', -⟩
    · cases hd
    · exact ih h'

/-- A path leads up to each of its steps: the steps of that path are those that were made before. -/
theorem Path.exists_before (hp : start.Path es m) {pre post : List Executed} {e : Executed}
    (he : executed es = pre ++ e :: post) :
    ∃ es₀, executed es₀ = pre ∧ start.Path es₀ e.before
      ∧ e.before.step = .ok (e.outcome, e.after) := by
  obtain ⟨es₁, rest, rfl, hpre, hrest⟩ := List.filterMap_eq_append_iff.1 he
  obtain ⟨es₂, d, es₃, rfl, hnone, hd, -⟩ := List.filterMap_eq_cons_iff.1 hrest
  have hskipped : executed es₂ = [] := List.filterMap_eq_nil_iff.2 hnone
  obtain ⟨hpath, hstep⟩ := hp.before_event (List.append_assoc es₁ es₂ (d :: es₃)).symm hd
  refine ⟨es₁ ++ es₂, ?_, hpath, hstep⟩
  rw [executed_append, hskipped, List.append_nil]
  exact hpre

end Machine

/-! ### Runs as paths -/

namespace Host

variable {start h h' : Host} {es : List Event} {a : Action} {reply : Reply}

/-- An action that makes no step does to the machine what `Machine.act` tells. -/
theorem machine_of_perform (hp : h.perform a = .ok (reply, h')) (hs : a ≠ .step) (ht : a ≠ .tick) :
    h'.machine = h.machine.act a ∧ h.events a = [.action a] := by
  cases a
  case step => exact absurd rfl hs
  case tick => exact absurd rfl ht
  case load image =>
    refine ⟨?_, rfl⟩
    simp only [perform, load, Except.ok.injEq] at hp
    split at hp
    case h_1 m hm => cases hp; simp [Machine.act, hm]
    case h_2 e he => cases hp; simp [Machine.act, he]
  all_goals (cases hp; exact ⟨rfl, rfl⟩)

theorem machine_of_tick {outcome : TickOutcome} (ht : h.tick = .ok (outcome, h')) :
    h.machine.afterTurns h.stepsPerTick = .ok h'.machine := by
  cases hm : h.machine.afterTurns h.stepsPerTick with
  | error f => rw [show h.tick = _ from tick_of_error hm] at ht; cases ht
  | ok m => rw [show h.tick = _ from tick_of_ok hm] at ht; cases ht; rfl

/-- An action that succeeds is a step, a tick, or one that makes no step. -/
theorem perform_cases (hp : h.perform a = .ok (reply, h')) :
    (∃ outcome m, a = .step ∧ h.machine.step = .ok (outcome, m)
      ∧ h' = { h with
        machine := m
        journal := h.journal.recordStep h.tracer ⟨h.machine, outcome, m⟩ })
    ∨ (∃ outcome, a = .tick ∧ h.tick = .ok (outcome, h'))
    ∨ (a ≠ .step ∧ a ≠ .tick) := by
  by_cases hs : a = .step
  · subst hs
    cases hm : h.machine.step with
    | error f => rw [perform, step_of_fault hm] at hp; cases hp
    | ok r =>
      rw [perform_step hm] at hp
      cases hp
      exact .inl ⟨r.1, r.2, rfl, rfl, rfl⟩
  · by_cases ht : a = .tick
    · subst ht
      cases hm : h.tick with
      | error c => rw [perform, hm] at hp; cases hp
      | ok r =>
        rw [perform, hm] at hp
        cases hp
        exact .inr (.inl ⟨r.1, rfl, rfl⟩)
    · exact .inr (.inr ⟨hs, ht⟩)

/-- A run is a path of its machine. -/
theorem Run.path (hr : start.Run es h) : start.machine.Path es h.machine := by
  induction hr with
  | nil => exact .nil
  | pace n _ ih => exact ih
  | @perform es h h' a reply _ hp ih =>
    rcases perform_cases hp with ⟨outcome, m, rfl, hm, rfl⟩ | ⟨outcome, rfl, ht⟩ | ⟨hs, ht⟩
    · rw [events, hm]
      exact ih.step hm
    · exact ih.turned (Machine.turned_of_afterTurns (machine_of_tick ht))
    · obtain ⟨hm, he⟩ := machine_of_perform hp hs ht
      rw [hm, he]
      exact ih.action a

/-- A path goes on with the events of an action, also when the action crashes. -/
theorem exists_path_events {start : Machine} (hp : start.Path es h.machine) (a : Action) :
    ∃ m, start.Path (es ++ h.events a) m := by
  by_cases hs : a = .step
  · subst hs
    rw [events]
    cases hm : h.machine.step with
    | error f => exact ⟨_, by rwa [List.append_nil]⟩
    | ok r => exact ⟨_, hp.step hm⟩
  · by_cases ht : a = .tick
    · subst ht
      exact hp.exists_turns h.stepsPerTick
    · cases hm : h.perform a with
      | error c => cases a <;> first | exact absurd rfl hs | exact absurd rfl ht | cases hm
      | ok r =>
        rw [(machine_of_perform hm hs ht).2]
        exact ⟨_, hp.action a⟩

/-- A run that goes on with a session is a path, up to the crash that ends the session if there is
one. -/
theorem Run.exists_path_trail (hr : start.Run es h) (actions : List Action) :
    ∃ m, start.machine.Path (es ++ h.trail actions) m := by
  induction actions generalizing es h with
  | nil => exact ⟨_, by rw [trail, List.append_nil]; exact hr.path⟩
  | cons a rest ih =>
    cases ha : h.perform a with
    | error c =>
      rw [trail_of_crash ha]
      exact exists_path_events hr.path a
    | ok r =>
      rw [trail_of_perform ha, ← List.append_assoc]
      exact ih (hr.perform ha)

/-- The steps of a session are steps of the machine. -/
theorem step_of_mem_trail {actions : List Action} {e : Executed}
    (he : e ∈ executed (h.trail actions)) : e.before.step = .ok (e.outcome, e.after) := by
  obtain ⟨m, hp⟩ := (Run.nil : h.Run [] h).exists_path_trail actions
  obtain ⟨pre, post, hsplit⟩ := List.append_of_mem he
  obtain ⟨-, -, -, hstep⟩ := hp.exists_before hsplit
  exact hstep

end Host

end ChipEight
