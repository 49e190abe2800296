import ChipEight.Proofs.Host.Run
import ChipEight.Proofs.Machine.Keys

namespace ChipEight

/-!
# Keys along a session — moving keys commutes with code that does not look at them

Steps and ticks whose instructions do not look at the keys come to the same wherever between them
the host moves the keys: the same answers, the same journal, and the same machine with the keys
moved in the order of the moves. Whether they look at the keys is the same for every placement.

* `Placed` — moves of the keys placed between steps and ticks;
* `Host.withKeypad` — a host with another pad;
* `Host.readsKeys_events_withKeypad`, `Host.perform_withKeypad` — one step or tick with another pad;
* `Host.readsKeys_trail_of_placed`, `Host.WithMoves`, `Host.performAll_of_placed` — a session with
  moves placed in it;
* `Host.moves_commute` — every placement comes to the same.
-/

/-! ### Placing moves of the keys -/

/-- Moves of the keys, in their order, placed at any points before, between and after the steps and
ticks of a session. -/
inductive Placed : List Action → List Keypad.Move → List Action → Prop
  /-- The session and the moves are at their end. -/
  | nil : Placed [] [] []
  /-- The session goes on with a step or a tick. -/
  | advance {a : Action} {segment acts : List Action} {moves : List Keypad.Move} :
      a = .step ∨ a = .tick → Placed segment moves acts → Placed (a :: segment) moves (a :: acts)
  /-- The keys are moved. -/
  | move {segment acts : List Action} {moves : List Keypad.Move} (m : Keypad.Move) :
      Placed segment moves acts → Placed segment (m :: moves) (.keys m :: acts)

namespace Placed

variable {segment acts : List Action} {moves : List Keypad.Move}

/-- No moves are placed in one way. -/
theorem none_of_placed (h : Placed segment moves acts) : Placed segment [] segment := by
  induction h with
  | nil => exact .nil
  | advance ha _ ih => exact .advance ha ih
  | move m _ ih => exact ih

theorem all_moves (moves : List Keypad.Move) : Placed [] moves (moves.map .keys) := by
  induction moves with
  | nil => exact .nil
  | cons m moves ih => exact .move m ih

/-- All moves can be placed after the session. -/
theorem last_of_placed (h : Placed segment moves acts) :
    Placed segment moves (segment ++ moves.map .keys) := by
  have hnone := h.none_of_placed
  clear h
  induction segment with
  | nil => exact all_moves moves
  | cons a segment ih =>
    cases hnone with
    | advance ha hrest => exact .advance ha (ih hrest)

end Placed

/-- Whether a reply answers a step or a tick. -/
def Reply.ofRun : Reply → Bool
  | .stepped _ | .ticked _ => true
  | _ => false

/-- What a move of the keys is answered with; a report of the keyboard is answered with whether it
touches the keys. -/
def Keypad.Move.reply : Keypad.Move → Reply
  | .event (.down c) => .flag (Keypad.slot? c).isSome
  | .event (.up _) => .flag true
  | _ => .done

theorem Keypad.Move.ofRun_reply (m : Keypad.Move) : m.reply.ofRun = false := by
  unfold reply
  split <;> rfl

/-- Whether a report of the keyboard touches the keys does not depend on which keys are down. -/
theorem Keypad.flag_handle (p : Keypad) (e : KeyEvent) :
    Reply.flag (p.handle e).1 = (Keypad.Move.event e).reply := by
  cases e with
  | down c =>
    simp only [handle, Move.reply]
    cases slot? c <;> rfl
  | up c => rfl

/-! ### Hosts with another pad -/

namespace Host

variable {h : Host} {p : Keypad} {a : Action}

/-- The host with another pad. -/
def withKeypad (h : Host) (p : Keypad) : Host :=
  h.withMachine (h.machine.withKeypad p)

/-- An observer is not told of the keys, and neither do they show. -/
theorem afterSteps_withKeypad (h : Host) (p : Keypad) (m : Machine) (steps : List Executed) :
    (h.withKeypad p).afterSteps (m.withKeypad p) (steps.map (Executed.withKeypad · p))
      = (h.afterSteps m steps).withKeypad p := by
  have hcount : (steps.map (Executed.withKeypad · p)).countP Executed.isUnknown
      = steps.countP Executed.isUnknown := List.countP_map
  have hjournal :
      (steps.map (Executed.withKeypad · p)).foldl (Journal.recordTurn h.tracer) h.journal
        = steps.foldl (Journal.recordTurn h.tracer) h.journal := List.foldl_map
  simp only [afterSteps, withKeypad, withMachine, hcount, hjournal]

/-- Whether a step or a tick looks at the keys does not depend on the keys. -/
theorem readsKeys_events_withKeypad (p : Keypad) (ha : a = .step ∨ a = .tick) :
    ReadsKeys (executed ((h.withKeypad p).events a)) ↔ ReadsKeys (executed (h.events a)) := by
  rcases ha with rfl | rfl
  · -- a step is the instruction at the counter, whatever the pad, unless it fails
    have hstep : ∀ k : Host, ReadsKeys (executed (k.events .step))
        ↔ (Instruction.decode k.machine.fetched).readsKeys = true := by
      intro k
      rw [events]
      cases hs : k.machine.step with
      | ok r => simp [ReadsKeys, executed, Event.executed?, Executed.instruction]
      | error f =>
        refine iff_of_false not_readsKeys_nil fun hk => ?_
        obtain ⟨o, m', hs'⟩ := Machine.exists_step_of_readsKeys hk
        rw [hs] at hs'
        cases hs'
    rw [hstep, hstep]
    exact Iff.rfl
  · rw [events, events, executed_map_turn, executed_map_turn]
    exact Machine.readsKeys_turns_withKeypad p h.stepsPerTick h.machine

/-- A step that does not look at the keys, asked for with another pad. -/
theorem step_withKeypad (p : Keypad) (hk : ¬ ReadsKeys (executed (h.events .step))) :
    (h.withKeypad p).perform .step = (h.perform .step).map (Prod.map id (withKeypad · p)) := by
  have hi : (Instruction.decode h.machine.fetched).readsKeys = false := by
    rw [← Bool.not_eq_true]
    intro hi
    obtain ⟨o, m', hs⟩ := Machine.exists_step_of_readsKeys hi
    rw [events, hs] at hk
    exact hk ⟨_, List.mem_cons_self, hi⟩
  cases hs : h.machine.step with
  | error f =>
    have hs' : (h.withKeypad p).machine.step = .error f := Machine.step_withKeypad_of_fault p hi hs
    rw [perform, perform, step_of_fault hs, step_of_fault hs']
    rfl
  | ok r =>
    have hs' : (h.withKeypad p).machine.step = .ok (r.1, r.2.withKeypad p) :=
      Machine.step_withKeypad_of_step p hi hs
    rw [perform_step hs, perform_step hs']
    rfl

/-- A tick whose steps do not look at the keys, with another pad. -/
theorem tick_withKeypad (p : Keypad) (hk : ¬ ReadsKeys (executed (h.events .tick))) :
    (h.withKeypad p).perform .tick = (h.perform .tick).map (Prod.map id (withKeypad · p)) := by
  -- the tick is its turns, in the machine it leaves and in what goes into the journal
  rw [events, executed_map_turn] at hk
  obtain ⟨hturns, hafter⟩ := Machine.turns_withKeypad p hk
  have hturns' : (h.withKeypad p).machine.turns h.stepsPerTick
      = (h.machine.turns h.stepsPerTick).map (Executed.withKeypad · p) := hturns
  cases hm : h.machine.afterTurns h.stepsPerTick with
  | error f =>
    have hm' : (h.withKeypad p).machine.afterTurns h.stepsPerTick = .error f := by
      rw [hm] at hafter
      exact hafter
    have ht : h.tick = _ := tick_of_error hm
    have ht' : (h.withKeypad p).tick = _ := tick_of_error hm'
    rw [perform, perform, ht, ht', hturns', List.foldl_map]
    rfl
  | ok m =>
    have hm' : (h.withKeypad p).machine.afterTurns h.stepsPerTick = .ok (m.withKeypad p) := by
      rw [hm] at hafter
      exact hafter
    have ht : h.tick = _ := tick_of_ok hm
    have ht' : (h.withKeypad p).tick = _ := tick_of_ok hm'
    rw [perform, perform, ht, ht', hturns', afterSteps_withKeypad]
    rfl

/-- A step or a tick that does not look at the keys is answered alike with another pad and leaves
the same host but for the pad, or crashes alike. -/
theorem perform_withKeypad (p : Keypad) (ha : a = .step ∨ a = .tick)
    (hk : ¬ ReadsKeys (executed (h.events a))) :
    (h.withKeypad p).perform a = (h.perform a).map (Prod.map id (withKeypad · p)) := by
  rcases ha with rfl | rfl
  · exact step_withKeypad p hk
  · exact tick_withKeypad p hk

theorem ofRun_of_perform {h' : Host} {reply : Reply} (ha : a = .step ∨ a = .tick)
    (hp : h.perform a = .ok (reply, h')) : reply.ofRun = true := by
  rcases perform_cases hp with ⟨outcome, m, rfl, hm, -⟩ | ⟨outcome, rfl, ht⟩ | ⟨hs, ht⟩
  · rw [perform_step hm] at hp
    cases hp
    rfl
  · rw [perform, ht] at hp
    cases hp
    rfl
  · exact absurd ha (not_or.2 ⟨hs, ht⟩)

/-- The keys can be moved whatever the pad, and the answer does not depend on it. -/
theorem perform_keys_withKeypad (h : Host) (p : Keypad) (m : Keypad.Move) :
    (h.withKeypad p).perform (.keys m) = .ok (m.reply, h.withKeypad (p.move m)) := by
  cases m
  case event e => rw [← Keypad.flag_handle p e]; rfl
  all_goals rfl

/-! ### Sessions with moves placed in them -/

variable {segment acts : List Action} {moves : List Keypad.Move}

/-- A session that begins by looking at the keys looks at the keys, also when it crashes. -/
theorem readsKeys_trail_cons (hk : ReadsKeys (executed (h.events a))) (rest : List Action) :
    ReadsKeys (executed (h.trail (a :: rest))) := by
  cases hp : h.perform a with
  | error c =>
    rw [trail_of_crash hp]
    exact hk
  | ok r =>
    rw [trail_of_perform hp, executed_append]
    exact readsKeys_append.2 (.inl hk)

/-- Whether a session looks at the keys does not depend on the moves placed in it. -/
theorem readsKeys_trail_of_placed (hp : Placed segment moves acts) (h : Host) (p : Keypad) :
    ReadsKeys (executed ((h.withKeypad p).trail acts))
      ↔ ReadsKeys (executed (h.trail segment)) := by
  induction hp generalizing h p with
  | nil => exact Iff.rfl
  | move m _ ih =>
    -- moving the keys makes no step
    rw [trail_of_perform (perform_keys_withKeypad h p m), executed_append]
    exact ih h (p.move m)
  | @advance a segment acts moves ha _ ih =>
    have hevents := readsKeys_events_withKeypad (h := h) p ha
    by_cases hk : ReadsKeys (executed (h.events a))
    · -- what comes after the first look at the keys may differ, but does not matter
      exact iff_of_true (readsKeys_trail_cons (hevents.2 hk) acts) (readsKeys_trail_cons hk segment)
    · have hperform := perform_withKeypad p ha hk
      cases hr : h.perform a with
      | error c =>
        rw [hr] at hperform
        rw [trail_of_crash hr, trail_of_crash hperform]
        exact hevents
      | ok r =>
        rw [hr] at hperform
        rw [trail_of_perform hr, trail_of_perform hperform, executed_append, executed_append,
          readsKeys_append, readsKeys_append]
        exact or_congr hevents (ih r.2 p)

/-- What a session comes to, and what it comes to with moves of the keys placed in it: the same
crash, or the same answers but for those to the moves, and the same host with the keys at `q`. -/
inductive WithMoves (q : Keypad) (told : List Reply) :
    Except Crash (List Reply × Host) → Except Crash (List Reply × Host) → Prop
  /-- Both crashed alike. -/
  | crash (c : Crash) : WithMoves q told (.error c) (.error c)
  /-- Neither crashed. -/
  | done {replies answers : List Reply} {h : Host} :
      answers.filter Reply.ofRun = replies → answers.filter (!·.ofRun) = told →
      WithMoves q told (.ok (replies, h)) (.ok (answers, h.withKeypad q))

namespace WithMoves

variable {q : Keypad} {told replies : List Reply} {r s : Except Crash (List Reply × Host)}

/-- One more move goes before the others. -/
theorem move (hw : WithMoves q told r s) (m : Keypad.Move) :
    WithMoves q (m.reply :: told) r (s.map fun t => (m.reply :: t.1, t.2)) := by
  cases hw with
  | crash c => exact .crash c
  | done hrun htold =>
    refine .done ?_ ?_
    · rw [List.filter_cons_of_neg (by simp [m.ofRun_reply]), hrun]
    · rw [List.filter_cons_of_pos (by simp [m.ofRun_reply]), htold]

/-- One more step or tick goes before the others. -/
theorem advance {reply : Reply} (hw : WithMoves q told r s) (hr : reply.ofRun = true) :
    WithMoves q told (r.map fun t => (reply :: t.1, t.2)) (s.map fun t => (reply :: t.1, t.2)) := by
  cases hw with
  | crash c => exact .crash c
  | done hrun htold =>
    refine .done ?_ ?_
    · rw [List.filter_cons_of_pos hr, hrun]
    · rw [List.filter_cons_of_neg (by simp [hr]), htold]

theorem eq_error {c : Crash} (hw : WithMoves q told (.error c) s) : s = .error c := by
  cases hw
  rfl

theorem exists_eq_ok (hw : WithMoves q told (.ok (replies, h)) s) :
    ∃ answers, s = .ok (answers, h.withKeypad q) ∧ answers.filter Reply.ofRun = replies
      ∧ answers.filter (!·.ofRun) = told := by
  cases hw with
  | done hrun htold => exact ⟨_, rfl, hrun, htold⟩

end WithMoves

/-- A session that does not look at the keys comes to the same with moves placed in it; the keys are
moved in the order of the moves. -/
theorem performAll_of_placed (hp : Placed segment moves acts) (p : Keypad)
    (hk : ¬ ReadsKeys (executed (h.trail segment))) :
    WithMoves (moves.foldl Keypad.move p) (moves.map Keypad.Move.reply) (h.performAll segment)
      ((h.withKeypad p).performAll acts) := by
  induction hp generalizing h p with
  | nil => exact .done rfl rfl
  | move m _ ih =>
    rw [performAll_of_perform (perform_keys_withKeypad h p m)]
    exact (ih (p.move m) hk).move m
  | @advance a segment acts moves ha _ ih =>
    have hfirst : ¬ ReadsKeys (executed (h.events a)) :=
      fun hr => hk (readsKeys_trail_cons hr segment)
    have hperform := perform_withKeypad p ha hfirst
    cases hr : h.perform a with
    | error c =>
      rw [hr] at hperform
      rw [performAll_of_crash hr, performAll_of_crash hperform]
      exact .crash c
    | ok r =>
      rw [hr] at hperform
      rw [trail_of_perform hr, executed_append, readsKeys_append, not_or] at hk
      rw [performAll_of_perform hr, performAll_of_perform hperform]
      exact (ih p hk.2).advance (ofRun_of_perform ha hr)

/-- **Moving keys commutes with code that does not look at them.** Let moves of the keys be placed
at any points of a session of steps and ticks. Whether one of its steps looks at the keys is the
same as with all the moves after the session. If none does, then the session crashes with the moves
placed either way if it crashes alone, in the same crash. And if it ends without a crash, then so it
does with the moves placed either way: the answers to the steps and ticks are those of the session
alone, the moves are answered alike, and the same host is left, its journal, its machine and the
keys included. The keys are those before the session, moved in the order of the moves. -/
theorem moves_commute (h : Host) (hp : Placed segment moves acts) :
    (ReadsKeys (executed (h.trail acts))
      ↔ ReadsKeys (executed (h.trail (segment ++ moves.map .keys))))
    ∧ (¬ ReadsKeys (executed (h.trail segment)) →
        (∀ c, h.performAll segment = .error c →
          h.performAll acts = .error c ∧ h.performAll (segment ++ moves.map .keys) = .error c)
        ∧ ∀ replies h₁, h.performAll segment = .ok (replies, h₁) →
          ∃ answers later h',
            h.performAll acts = .ok (answers, h')
            ∧ h.performAll (segment ++ moves.map .keys) = .ok (later, h')
            ∧ answers.filter Reply.ofRun = replies ∧ later.filter Reply.ofRun = replies
            ∧ answers.filter (!·.ofRun) = later.filter (!·.ofRun)
            ∧ h' = h₁.withKeypad (moves.foldl Keypad.move h.machine.keypad)) := by
  -- the host is itself with its own pad
  have hself : h.withKeypad h.machine.keypad = h := rfl
  constructor
  · have hacts := readsKeys_trail_of_placed hp h h.machine.keypad
    have hlast := readsKeys_trail_of_placed hp.last_of_placed h h.machine.keypad
    rw [hself] at hacts hlast
    exact hacts.trans hlast.symm
  · intro hk
    have hacts := performAll_of_placed hp h.machine.keypad hk
    have hlast := performAll_of_placed hp.last_of_placed h.machine.keypad hk
    rw [hself] at hacts hlast
    refine ⟨fun c hc => ?_, fun replies h₁ hs => ?_⟩
    · rw [hc] at hacts hlast
      exact ⟨hacts.eq_error, hlast.eq_error⟩
    · rw [hs] at hacts hlast
      obtain ⟨answers, hanswers, hrun, hmoves⟩ := hacts.exists_eq_ok
      obtain ⟨later, hlater, hrun', hmoves'⟩ := hlast.exists_eq_ok
      exact ⟨answers, later, _, hanswers, hlater, hrun, hrun', hmoves.trans hmoves'.symm, rfl⟩

/-- A program that jumps to the next word and clears the screen there. -/
def jumpAndClear : Array UInt8 := #[0x12, 0x02, 0x00, 0xE0]

theorem moves_commute_jumpAndClear :
    ∃ (h h' : Host) (answers later : List Reply),
      h.performAll [.keys (.press 3), .step, .keys (.event (.down 'v')), .tick] = .ok (answers, h')
      ∧ h.performAll [.step, .tick, .keys (.press 3), .keys (.event (.down 'v'))] = .ok (later, h')
      ∧ answers.filter Reply.ofRun = [.stepped .proceeded, .ticked .stopped]
      ∧ h'.journal.frames = #[.blank] ∧ h'.machine.keypad = (Keypad.released.press 3).press 15 := by
  let m : Machine :=
    { Machine.ofSeed 0 with memory := Memory.initial.overlay jumpAndClear, programSize := 4 }
  let m₁ : Machine := { m.fetch with pc := 0x202 }.countDown
  let m₂ : Machine := { m₁.fetch with screen := .blank, drawFlag := true }.countDown
  have hjump : Instruction.decode m.fetched = .jump 0x202 := by
    rw [Machine.fetched_overlay (m := m) (k := 0) rfl rfl (by decide) rfl rfl]
    decide
  have hclear : Instruction.decode m₁.fetched = .clear := by
    rw [Machine.fetched_overlay (m := m₁) (k := 2) rfl rfl (by decide) rfl rfl]
    decide
  have hstep₁ : m.step = .ok (.proceeded, m₁) := by rw [Machine.step, hjump]; rfl
  have hstep₂ : m₁.step = .ok (.drew, m₂) := by rw [Machine.step, hclear]; rfl
  let h : Host := ofMachine m 1
  let h₁ : Host := { h with machine := m₁ }
  let h₂ : Host := h₁.afterSteps m₂.clearDrawFlag [⟨m₁, .drew, m₂⟩]
  have hperform₁ : h.perform .step = .ok (.stepped .proceeded, h₁) := perform_step hstep₁
  have hrunning : m₁.isRunning = true := by decide
  have hstopped : m₂.clearDrawFlag.isRunning = false := by decide
  have hafter : m₁.afterTurns 1 = .ok m₂.clearDrawFlag := Machine.afterTurns_of_step hrunning hstep₂
  have hturns : m₁.turns 1 = [⟨m₁, .drew, m₂⟩] := Machine.turns_of_step hrunning hstep₂
  have hperform₂ : h₁.perform .tick = .ok (.ticked .stopped, h₂) := by
    have ht : h₁.tick = _ := tick_of_ok (h := h₁) (n := 1) hafter
    rw [perform, ht, hstopped, show h₁.machine.turns 1 = _ from hturns]
    rfl
  have hsession :
      h.performAll [.step, .tick] = .ok ([.stepped .proceeded, .ticked .stopped], h₂) := by
    rw [performAll_of_perform hperform₁, performAll_of_perform hperform₂]
    rfl
  have hsteps : executed (h.trail [.step, .tick]) = [⟨m, .proceeded, m₁⟩, ⟨m₁, .drew, m₂⟩] := by
    rw [trail_of_perform hperform₁, trail_singleton, executed_append, events, events,
      executed_map_turn, show h.machine.step = _ from hstep₁,
      show h₁.machine.turns h₁.stepsPerTick = _ from hturns]
    rfl
  have hk : ¬ ReadsKeys (executed (h.trail [.step, .tick])) := by
    rw [hsteps, readsKeys_cons, readsKeys_cons]
    rintro (hfirst | hsecond | hnil)
    · rw [Executed.instruction, hjump] at hfirst
      cases hfirst
    · rw [Executed.instruction, hclear] at hsecond
      cases hsecond
    · exact not_readsKeys_nil hnil
  have hplaced : Placed [.step, .tick] [.press 3, .event (.down 'v')]
      [.keys (.press 3), .step, .keys (.event (.down 'v')), .tick] :=
    .move _ (.advance (.inl rfl) (.move _ (.advance (.inr rfl) .nil)))
  obtain ⟨-, hcommute⟩ := moves_commute h hplaced
  obtain ⟨-, hdone⟩ := hcommute hk
  obtain ⟨answers, later, h', hanswers, hlater, hrun, -, -, rfl⟩ := hdone _ _ hsession
  exact ⟨h, _, answers, later, hanswers, hlater, hrun, rfl, rfl⟩

end Host

end ChipEight
