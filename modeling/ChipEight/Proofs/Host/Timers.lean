import ChipEight.Proofs.Host.Run
import ChipEight.Proofs.Machine.Footprint

namespace ChipEight

/-!
# Timers along a run — what was started, less the counts since

A timer is started from a register and goes down by one with every step, also with the one that
started it, and with every count that the host asks for. So what it stands at is known from the last
start and from the number of counts since, whatever else was executed or done.

* `Event.start?` — the byte that an event starts a timer from;
* `timerCounts` — the counts among events;
* `Timed` — the law, as a relation between the events so far and a timer, with `Timed.concat` for
  one more event;
* `Machine.Path.timed` — the law along a path;
* `Host.timers_of_run` — the law at every point of a session.
-/

/-! ### Starts and counts -/

/-- The byte that a step starts a timer from: what the register of its instruction held before the
step. -/
def Executed.start? (t : Timer) (e : Executed) : Option UInt8 :=
  (e.instruction.starts? t).map e.before.registers.get

/-- The byte that an event starts a timer from. -/
def Event.start? (t : Timer) (d : Event) : Option UInt8 :=
  d.executed?.bind (Executed.start? t)

/-- How often the timers are counted in the course of events: once with every step, on its own or in
a tick, and once for every time that the host asks for it. -/
def timerCounts (es : List Event) : Nat :=
  (executed es).length + es.count (.action .countDown)

@[simp] theorem timerCounts_append (es ds : List Event) :
    timerCounts (es ++ ds) = timerCounts es + timerCounts ds := by
  simp only [timerCounts, executed_append, List.length_append, List.count_append]
  omega

/-- A step counts once. -/
theorem timerCounts_of_executed {d : Event} {e : Executed} (h : d.executed? = some e) :
    timerCounts [d] = 1 := by
  cases d
  case step => rfl
  case turn => rfl
  case action => cases h

/-! ### The law -/

/-- What a timer stands at after events: zero as long as it was not started, and after that the byte
of the last start less the counts since, those with the start included. -/
structure Timed (t : Timer) (es : List Event) (v : UInt8) : Prop where
  /-- Without a start the timer stays at zero. -/
  unstarted : (∀ d ∈ es, d.start? t = none) → v.toNat = 0
  /-- The last start and the counts since fix what the timer stands at. -/
  started : ∀ (pre post : List Event) (d : Event) (b : UInt8), es = pre ++ d :: post →
    d.start? t = some b → (∀ d' ∈ post, d'.start? t = none) →
    v.toNat = b.toNat - timerCounts (d :: post)

variable {t : Timer} {es : List Event} {d : Event} {e : Executed} {v v' : UInt8}

/-- The law holds after one more event if the event starts the timer and counts it once, or starts
nothing and takes its counts off. -/
theorem Timed.concat (hv : Timed t es v)
    (hstart : ∀ b, d.start? t = some b → v'.toNat = b.toNat - timerCounts [d])
    (hkeep : d.start? t = none → v'.toNat = v.toNat - timerCounts [d]) :
    Timed t (es ++ [d]) v' where
  unstarted := by
    intro hnone
    have hzero := hv.unstarted fun d' hd' => hnone d' (List.mem_append_left _ hd')
    have hcount := hkeep (hnone d (List.mem_append_right _ List.mem_cons_self))
    omega
  started := by
    intro pre post d' b hsplit hd' hpost
    rcases Machine.append_singleton_eq_append_cons hsplit with ⟨-, rfl, rfl⟩ | ⟨post', rfl, rfl⟩
    · -- the event is the last start itself
      exact hstart b hd'
    · -- the last start was before, and the event adds its counts to those since
      have hbefore := hv.started pre post' d' b rfl hd' fun x hx =>
        hpost x (List.mem_append_left _ hx)
      have hcount := hkeep (hpost d (List.mem_append_right _ List.mem_cons_self))
      have hsum :
          timerCounts (d' :: (post' ++ [d])) = timerCounts (d' :: post') + timerCounts [d] := by
        rw [← List.cons_append, timerCounts_append]
      omega

/-- The law holds after a step. -/
theorem Timed.step (hv : Timed t es (e.before.timer t)) (hd : d.executed? = some e)
    (h : e.before.step = .ok (e.outcome, e.after)) : Timed t (es ++ [d]) (e.after.timer t) := by
  have hcounted := (Executed.framed h).timers t
  have hone := timerCounts_of_executed hd
  have hstart : d.start? t = (e.instruction.starts? t).map e.before.registers.get := by
    rw [Event.start?, hd]
    rfl
  apply hv.concat
  · intro b hb
    rw [hstart] at hb
    obtain ⟨x, hx, rfl⟩ := Option.map_eq_some_iff.1 hb
    rw [hcounted, hx, Machine.toNat_counted, hone]
    rfl
  · intro hnone
    rw [hstart, Option.map_eq_none_iff] at hnone
    rw [hcounted, hnone, Machine.toNat_counted, hone]
    rfl

namespace Machine

variable {start m m' : Machine} {outcome : StepOutcome}

/-- Of the actions that make no step, one counts the timers and the others leave them. -/
theorem toNat_timer_act (m : Machine) (a : Action) (t : Timer) :
    ((m.act a).timer t).toNat = (m.timer t).toNat - timerCounts [.action a] := by
  cases a
  case load image =>
    simp only [act]
    split
    case h_1 m' h =>
      obtain ⟨-, rfl⟩ := load_eq_ok_iff.1 h
      rfl
    case h_2 => rfl
  case countDown => cases t <;> exact toNat_counted _
  all_goals rfl

/-- Along a path from a machine with a timer at zero, the timer keeps the law. -/
theorem Path.timed (hs : start.timer t = 0) (hp : start.Path es m) : Timed t es (m.timer t) := by
  induction hp with
  | nil =>
    constructor
    · intro _
      rw [hs]
      rfl
    · intro pre post d b hsplit
      exact absurd hsplit (List.append_ne_nil_of_right_ne_nil pre (List.cons_ne_nil d post)).symm
  | @step es m m' outcome _ h ih => exact ih.step (e := ⟨m, outcome, m'⟩) rfl h
  | @turn es m m' outcome _ _ h ih =>
    -- taking the draw flag down leaves the timers
    have hturn := ih.step (e := ⟨m, outcome, m'⟩) (d := .turn ⟨m, outcome, m'⟩) rfl h
    cases t <;> exact hturn
  | @action es m a _ ih =>
    apply ih.concat
    · intro b hb
      cases hb
    · intro _
      exact toNat_timer_act m a t

/-- The delay timer is read before the step counts it. -/
theorem readDelay_of_step {x : Nibble} (h : m.step = .ok (outcome, m'))
    (hi : Instruction.decode m.fetched = .readDelay x) : m'.registers.get x = m.delay := by
  obtain ⟨m₁, he, rfl⟩ := step_eq_ok_iff.1 h
  rw [hi] at he
  cases he
  exact Bank.get_put_self

end Machine

/-! ### Sessions -/

namespace Host

/-- A tick that makes no step leaves the machine as it is. -/
theorem machine_of_idle_tick {h h' : Host} {outcome : TickOutcome} (ht : h.tick = .ok (outcome, h'))
    (hnone : h.machine.turns h.stepsPerTick = []) : h'.machine = h.machine := by
  have hturned := Machine.turned_of_afterTurns (machine_of_tick ht)
  rw [hnone] at hturned
  generalize h'.machine = m at hturned ⊢
  cases hturned
  rfl

/-- **Timers along a session.** In a session with a new machine, whatever is done to it and also
when it ends in a crash, either timer stands at zero until it is started, and from then on at the
byte of the last start less the number of steps and of counts asked for since, or at zero if there
were more of them; and so it does before and after every step, whether on its own or in a tick. The
delay timer is read before the step that reads it counts it. A tick that makes no step leaves the
timers, and a machine beeps as long as its sound timer is above zero. -/
theorem timers_of_run {seed : UInt64} {n : Nat} {es : List Event} {h : Host}
    (hr : (ofSeed seed n).Run es h) (actions : List Action) :
    (∀ t, Timed t es (h.machine.timer t))
    ∧ (∀ (pre post : List Event) (d : Event) (e : Executed),
        es ++ h.trail actions = pre ++ d :: post → d.executed? = some e →
        (∀ t, Timed t pre (e.before.timer t)) ∧ (∀ t, Timed t (pre ++ [d]) (e.after.timer t))
        ∧ ∀ x, e.instruction = .readDelay x → e.after.registers.get x = e.before.timer .delay)
    ∧ (∀ outcome h', h.tick = .ok (outcome, h') → h.machine.turns h.stepsPerTick = [] →
        ∀ t, h'.machine.timer t = h.machine.timer t)
    ∧ ∀ m : Machine, m.beeps = true ↔ 0 < (m.timer .sound).toNat := by
  have hzero : ∀ t, (ofSeed seed n).machine.timer t = 0 := by
    intro t
    cases t <;> rfl
  obtain ⟨m, hp⟩ := hr.exists_path_trail actions
  refine ⟨fun t => hr.path.timed (hzero t), ?_, ?_, fun m => decide_eq_true_iff⟩
  · intro pre post d e hsplit hd
    obtain ⟨hbefore, hstep⟩ := hp.before_event hsplit hd
    have htimed := fun t => hbefore.timed (hzero t)
    have hread := fun x => Machine.readDelay_of_step (x := x) hstep
    exact ⟨htimed, fun t => (htimed t).step hd hstep, hread⟩
  · intro outcome h' ht hnone t
    rw [machine_of_idle_tick ht hnone]

/-- A program that starts the delay timer at five and reads it. -/
def startAndRead : Array UInt8 := #[0x60, 0x05, 0xF0, 0x15, 0xF1, 0x07]

theorem timers_of_run_startAndRead :
    ∃ c d e h, (ofSeed 0 10).Run
        [.action (.load startAndRead), .step c, .step d, .step e, .action .countDown] h
      ∧ d.instruction = .startDelay 0 ∧ e.instruction = .readDelay 1
      ∧ e.after.registers.get 1 = e.before.delay
      ∧ (h.machine.timer .delay).toNat = 5 - 3 ∧ (h.machine.timer .sound).toNat = 0 := by
  let m₁ : Machine :=
    { Machine.ofSeed 0 with memory := Memory.initial.overlay startAndRead, programSize := 6 }
  let m₂ : Machine := (m₁.fetch.put 0 5).countDown
  let m₃ : Machine := { m₂.fetch with delay := m₂.registers.get 0 }.countDown
  let m₄ : Machine := (m₃.fetch.put 1 m₃.delay).countDown
  have hset : Instruction.decode m₁.fetched = .set 0 5 := by
    rw [Machine.fetched_overlay (m := m₁) (k := 0) rfl rfl (by decide) rfl rfl]
    decide
  have hstart : Instruction.decode m₂.fetched = .startDelay 0 := by
    rw [Machine.fetched_overlay (m := m₂) (k := 2) rfl rfl (by decide) rfl rfl]
    decide
  have hread : Instruction.decode m₃.fetched = .readDelay 1 := by
    rw [Machine.fetched_overlay (m := m₃) (k := 4) rfl rfl (by decide) rfl rfl]
    decide
  have hstep₁ : m₁.step = .ok (.proceeded, m₂) := by rw [Machine.step, hset]; rfl
  have hstep₂ : m₂.step = .ok (.proceeded, m₃) := by rw [Machine.step, hstart]; rfl
  have hstep₃ : m₃.step = .ok (.proceeded, m₄) := by rw [Machine.step, hread]; rfl
  let h₁ : Host := { ofSeed 0 10 with machine := m₁, journal := ⟨#[], #[], #[.loaded 6]⟩ }
  have hr₁ : (ofSeed 0 10).Run [.action (.load startAndRead)] h₁ :=
    Run.nil.perform (a := .load startAndRead) rfl
  have hr₄ := ((hr₁.step hstep₁).step hstep₂).step hstep₃
  let c : Executed := ⟨m₁, .proceeded, m₂⟩
  let d : Executed := ⟨m₂, .proceeded, m₃⟩
  let e : Executed := ⟨m₃, .proceeded, m₄⟩
  have hr₅ : (ofSeed 0 10).Run
      [.action (.load startAndRead), .step c, .step d, .step e, .action .countDown] _ :=
    hr₄.perform (a := .countDown) rfl
  have hc : c.instruction = .set 0 5 := hset
  have hd : d.instruction = .startDelay 0 := hstart
  have he : e.instruction = .readDelay 1 := hread
  -- which of the events start a timer
  have hc' : ∀ t, (Event.step c).start? t = none := by
    intro t
    show (c.instruction.starts? t).map _ = none
    rw [hc]
    cases t <;> rfl
  have hd' : ∀ t, (Event.step d).start? t
      = (Instruction.starts? t (.startDelay 0)).map fun _ => 5 := by
    intro t
    show (d.instruction.starts? t).map _ = _
    rw [hd]
    cases t <;> rfl
  have he' : ∀ t, (Event.step e).start? t = none := by
    intro t
    show (e.instruction.starts? t).map _ = none
    rw [he]
    cases t <;> rfl
  obtain ⟨htimed, hsteps, -⟩ := timers_of_run hr₅ []
  have hdelay := (htimed .delay).started [.action (.load startAndRead), .step c]
    [.step e, .action .countDown] (.step d) 5 rfl (hd' .delay) (by
      intro x hx
      rcases List.mem_cons.1 hx with rfl | hx
      · exact he' .delay
      · obtain rfl := List.mem_singleton.1 hx
        rfl)
  have hsound := (htimed .sound).unstarted (by
    intro x hx
    simp only [List.mem_cons, List.not_mem_nil, or_false] at hx
    rcases hx with rfl | rfl | rfl | rfl | rfl
    · rfl
    · exact hc' .sound
    · exact hd' .sound
    · exact he' .sound
    · rfl)
  obtain ⟨-, -, hvalue⟩ := hsteps [.action (.load startAndRead), .step c, .step d]
    [.action .countDown] (.step e) e rfl rfl
  exact ⟨c, d, e, _, hr₅, hd, he, hvalue 1 he, hdelay, hsound⟩

end Host

end ChipEight
