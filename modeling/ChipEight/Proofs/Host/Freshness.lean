import ChipEight.Proofs.Host.Run

namespace ChipEight

/-!
# Freshness — what was shown last is what is on the screen

A host that leaves the draw flag to its ticks never shows a stale picture: whenever the screen
differs from the picture that was shown last, the flag says so, and a tick that makes a step takes
the flag down and leaves nothing to show.

* `lastPicture` — the picture that was shown last;
* `Machine.Fresh` — the invariant: the flag is up, or nothing is left to show;
* `Machine.Fresh.step`, `Machine.Fresh.act`, `Machine.Fresh.turned` — what keeps it;
* `Machine.Turned.drawFlag_eq_false` — the flag after a tick that makes a step;
* `Host.Run.fresh` — the invariant over runs;
* `Host.screen_never_stale` — both together.
-/

/-- The picture that was shown last; before the first one that is the blank screen. -/
def lastPicture (frames : List Screen) : Screen :=
  frames.getLast?.getD .blank

@[simp] theorem lastPicture_concat (frames : List Screen) (s : Screen) :
    lastPicture (frames ++ [s]) = s := by
  simp [lastPicture]

namespace Machine

variable {m m' : Machine} {frames : List Screen} {outcome : StepOutcome} {n : Nat} {a : Action}

/-- The draw flag is up, or the screen is the picture that was shown last. -/
def Fresh (frames : List Screen) (m : Machine) : Prop :=
  m.drawFlag = true ∨ m.screen = lastPicture frames

/-! ### One step, one action -/

theorem Fresh.step (hf : m.Fresh frames) (h : m.step = .ok (outcome, m')) : m'.Fresh frames := by
  rcases screen_of_step h with ⟨hs, hd⟩ | hd
  · rcases hf with hup | hshown
    · exact .inl (hd.trans hup)
    · exact .inr (hs.trans hshown)
  · exact .inl hd

/-- Actions other than those on the draw flag leave it as it is. -/
theorem drawFlag_act (m : Machine) (hc : a ≠ .clearDrawFlag) (ht : a ≠ .takeDrawFlag) :
    (m.act a).drawFlag = m.drawFlag := by
  cases a
  case clearDrawFlag => exact absurd rfl hc
  case takeDrawFlag => exact absurd rfl ht
  case load image =>
    simp only [act]
    split
    case h_1 m' h =>
      obtain ⟨-, rfl⟩ := load_eq_ok_iff.1 h
      rfl
    case h_2 => rfl
  all_goals rfl

theorem Fresh.act (hf : m.Fresh frames) (hc : a ≠ .clearDrawFlag) (ht : a ≠ .takeDrawFlag) :
    (m.act a).Fresh frames := by
  rw [Fresh, drawFlag_act m hc ht, (act_fixed m a).2.2.2.2.1]
  exact hf

/-! ### Turns -/

/-- A turn shows the screen if the flag is up; if the flag is down, the screen was not touched. -/
theorem Fresh.turn (hf : m.Fresh frames) (hs : m.step = .ok (outcome, m')) :
    m'.clearDrawFlag.Fresh (frames ++ pictures [⟨m, outcome, m'⟩]) := by
  right
  show m'.screen = _
  cases hd : m'.drawFlag with
  | true =>
    rw [pictures_of_up (e := ⟨m, outcome, m'⟩) hd, lastPicture_concat]
  | false =>
    rw [pictures_of_down (e := ⟨m, outcome, m'⟩) hd, List.append_nil]
    rcases hf.step hs with hup | hshown
    · rw [hd] at hup
      cases hup
    · exact hshown

/-- Turns keep the pictures shown up to date. -/
theorem Fresh.turned {steps : List Executed} (hf : m.Fresh frames) (ht : Turned m steps m') :
    m'.Fresh (frames ++ pictures steps) := by
  induction ht generalizing frames with
  | nil => rwa [pictures_nil, List.append_nil]
  | cons _ hs _ ih =>
    rw [← List.singleton_append, pictures_append, ← List.append_assoc]
    exact ih (hf.turn hs)

/-- Turns leave the draw flag down if it was down before them or if there is a step among them. -/
theorem Turned.drawFlag_eq_false {steps : List Executed} (ht : Turned m steps m')
    (hn : m.drawFlag = false ∨ steps ≠ []) : m'.drawFlag = false := by
  induction ht with
  | nil => exact hn.resolve_right fun h => h rfl
  | cons _ _ _ ih => exact ih (.inl rfl)

end Machine

/-! ### Runs -/

namespace Host

variable {start h h' : Host} {es : List Event} {a : Action} {reply : Reply}

/-- An action that makes no step shows no picture. -/
theorem frames_of_perform (hp : h.perform a = .ok (reply, h')) (hs : a ≠ .step) (ht : a ≠ .tick) :
    h'.journal.frames = h.journal.frames := by
  cases a
  case step => exact absurd rfl hs
  case tick => exact absurd rfl ht
  case load image =>
    simp only [perform, load, Except.ok.injEq] at hp
    split at hp <;> cases hp <;> rfl
  all_goals (cases hp; rfl)

/-- A tick adds the pictures of its steps to those that were shown. -/
theorem frames_of_tick {outcome : TickOutcome} (ht : h.tick = .ok (outcome, h')) :
    h'.journal.frames.toList
      = h.journal.frames.toList ++ pictures (h.machine.turns h.stepsPerTick) := by
  cases hm : h.machine.afterTurns h.stepsPerTick with
  | error f => rw [show h.tick = _ from tick_of_error hm] at ht; cases ht
  | ok m =>
    rw [show h.tick = _ from tick_of_ok hm] at ht
    cases ht
    exact Journal.frames_recordTurns _ _ _

/-- A run in which the host leaves the draw flag to its ticks keeps the pictures shown up to
date. -/
theorem Run.fresh (hr : start.Run es h) (hstart : start.machine.Fresh start.journal.frames.toList)
    (hc : ∀ e ∈ es, e ≠ .action .clearDrawFlag ∧ e ≠ .action .takeDrawFlag) :
    h.machine.Fresh h.journal.frames.toList := by
  induction hr with
  | nil => exact hstart
  | pace n _ ih => exact ih hc
  | @perform es h h' a reply _ hp ih =>
    have hf := ih fun e he => hc e (List.mem_append_left _ he)
    rcases perform_cases hp with ⟨outcome, m, rfl, hm, rfl⟩ | ⟨outcome, rfl, ht⟩ | ⟨hs, ht⟩
    · rw [Journal.frames_recordStep]
      exact hf.step hm
    · rw [frames_of_tick ht]
      exact hf.turned (Machine.turned_of_afterTurns (machine_of_tick ht))
    · obtain ⟨hm, he⟩ := machine_of_perform hp hs ht
      obtain ⟨hclear, htake⟩ := hc (.action a) (by simp [he])
      rw [hm, frames_of_perform hp hs ht]
      exact hf.act (fun h => hclear (congrArg _ h)) (fun h => htake (congrArg _ h))

/-- **The screen is never stale.** In a run of a new machine in which the host leaves the draw flag
to its ticks, the flag is up or the screen is the picture that was shown last; and after a tick that
makes a step the flag is down, so that the screen is that picture. -/
theorem screen_never_stale {seed : UInt64} {n : Nat} {es : List Event} {h : Host}
    (hr : (ofSeed seed n).Run es h)
    (hc : ∀ e ∈ es, e ≠ .action .clearDrawFlag ∧ e ≠ .action .takeDrawFlag) :
    (h.machine.drawFlag = true ∨ h.machine.screen = lastPicture h.journal.frames.toList)
    ∧ (∀ outcome h', h.tick = .ok (outcome, h') → h.machine.turns h.stepsPerTick ≠ [] →
        h'.machine.drawFlag = false
        ∧ h'.machine.screen = lastPicture h'.journal.frames.toList) := by
  have hf := hr.fresh (.inr rfl) hc
  refine ⟨hf, ?_⟩
  intro outcome h' ht hsteps
  have hturned := Machine.turned_of_afterTurns (machine_of_tick ht)
  have hdown := hturned.drawFlag_eq_false (.inr hsteps)
  have hf' := hf.turned hturned
  rw [← frames_of_tick ht] at hf'
  refine ⟨hdown, ?_⟩
  rcases hf' with hup | hshown
  · rw [hdown] at hup
    cases hup
  · exact hshown

/-- A program that draws the glyph of zero in the top left corner. -/
def drawZero : Array UInt8 := #[0xD0, 0x05]

theorem screen_never_stale_drawZero :
    ∃ h h', (ofSeed 0 1).Run [.action (.load drawZero)] h ∧ h.tick = .ok (.stopped, h')
      ∧ h.machine.screen = lastPicture h.journal.frames.toList
      ∧ h'.machine.drawFlag = false
      ∧ h'.machine.screen = lastPicture h'.journal.frames.toList := by
  let m₁ : Machine :=
    { Machine.ofSeed 0 with memory := Memory.initial.overlay drawZero, programSize := 2 }
  let m₂ : Machine := (m₁.fetch.draw 0 0 5).countDown
  have hdraw : Instruction.decode m₁.fetched = .draw 0 0 5 := by
    rw [Machine.fetched_overlay (m := m₁) (k := 0) rfl rfl (by decide) rfl rfl]
    decide
  have hstep : m₁.step = .ok (.drew, m₂) := by rw [Machine.step, hdraw]; rfl
  have hrun : m₁.isRunning = true := by decide
  let h₁ : Host := { ofSeed 0 1 with machine := m₁, journal := ⟨#[], #[], #[.loaded 2]⟩ }
  have hr₁ : (ofSeed 0 1).Run [.action (.load drawZero)] h₁ :=
    Run.nil.perform (a := .load drawZero) rfl
  have hafter : h₁.machine.afterTurns 1 = .ok m₂.clearDrawFlag :=
    Machine.afterTurns_of_step hrun hstep
  have hturns : h₁.machine.turns 1 = [⟨m₁, .drew, m₂⟩] := Machine.turns_of_step hrun hstep
  obtain ⟨hfresh, htick⟩ := screen_never_stale hr₁ (by decide)
  have hstopped : m₂.clearDrawFlag.isRunning = false := by decide
  have ht := tick_of_ok (h := h₁) hafter
  rw [hstopped] at ht
  obtain ⟨hdown, hshown⟩ := htick _ _ ht (by rw [show h₁.stepsPerTick = 1 from rfl, hturns]; simp)
  exact ⟨h₁, _, hr₁, ht, hfresh.resolve_left (by decide), hdown, hshown⟩

end Host

end ChipEight
