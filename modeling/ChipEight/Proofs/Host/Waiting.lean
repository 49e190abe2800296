import ChipEight.Proofs.Host.Keys
import ChipEight.Proofs.Instruction.Decoding
import ChipEight.Proofs.Keypad.History

namespace ChipEight

/-!
# Waiting — the same word again until a key is down

The instruction that waits for a key takes the counter back to its own word as long as every key is
up, so that the machine stays as it is for any number of steps. All that passes is the time on the
timers, and a tick makes all of its steps. The first step that finds a key down takes the lowest one
and goes on.

* `Machine.Awaits`, `Machine.waited` — a machine that waits, and what steps make of it;
* `Machine.Awaits.step`, `Machine.waited_waited` — one step, and one after the other;
* `Machine.Awaits.turns`, `Machine.Awaits.afterTurns` — the turns of a tick;
* `Machine.Took`, `Machine.took_of_step` — the end of the wait;
* `Host.performAll_of_awaits`, `Host.tick_of_awaits` — steps and ticks of a host;
* `Host.waiting_stutters` — all of it.
-/

namespace Machine

variable {m m' : Machine} {x : Nibble} {n : Nat}

/-! ### A wait that goes on -/

/-- A machine whose next step waits for a key for register `x`. -/
structure Awaits (x : Nibble) (m : Machine) : Prop where
  /-- The word at the counter waits for a key. -/
  word : m.fetched = Word.ofNibbles 0xF x 0x0 0xA
  /-- Every key is up. -/
  keys : ∀ k, m.keypad.keys.get k = false

/-- The machine after `n` steps that waited: its word taken up, and so much time gone by. -/
def waited (m : Machine) (n : Nat) : Machine :=
  { m with
    word := m.fetched
    delay := UInt8.ofNat (m.delay.toNat - n)
    sound := UInt8.ofNat (m.sound.toNat - n) }

/-- A timer that has gone down does not wrap. -/
theorem toNat_ofNat_sub (t : UInt8) (n : Nat) :
    (UInt8.ofNat (t.toNat - n)).toNat = t.toNat - n := by
  have := t.toNat_lt
  simp only [UInt8.toNat_ofNat']
  omega

theorem waited_waited (m : Machine) (j n : Nat) : (m.waited j).waited n = m.waited (n + j) := by
  simp only [waited, fetched, toNat_ofNat_sub, Nat.sub_sub, Nat.add_comm n]

theorem Awaits.waited (hm : m.Awaits x) (n : Nat) : (m.waited n).Awaits x :=
  ⟨hm.word, hm.keys⟩

theorem Awaits.clearDrawFlag (hm : m.Awaits x) : m.clearDrawFlag.Awaits x :=
  ⟨hm.word, hm.keys⟩

theorem decode_awaitKey (hw : m.fetched = Word.ofNibbles 0xF x 0x0 0xA) :
    Instruction.decode m.fetched = .awaitKey x :=
  Word.decode_device hw fun _ => .awaitKey

/-- The two bytes that the fetch adds to the counter are taken off again, also where the sum
wraps. -/
theorem Awaits.step (hm : m.Awaits x) : m.step = .ok (.waiting, m.waited 1) := by
  have hnone : m.fetch.keypad.firstDown = none := Keypad.find?_finRange_eq_none_iff.2 hm.keys
  have he : m.fetch.execute (.awaitKey x)
      = .ok (.waiting, { m.fetch with pc := m.fetch.pc - 2 }) := by
    simp only [execute, hnone]
  have hback : m.fetch.pc - 2 = m.pc := UInt16.add_sub_cancel m.pc 2
  rw [hback] at he
  exact step_of_execute (decode_awaitKey hm.word) he

/-! ### The turns of a wait -/

/-- A wait leaves the machine running, so that every turn makes its step. -/
theorem Awaits.turns (hm : m.Awaits x) (hr : m.isRunning = true) (n : Nat) :
    (m.turns n).map Executed.outcome = List.replicate n .waiting := by
  induction n generalizing m with
  | zero => rfl
  | succ n ih =>
    have hrest := ih (hm.waited 1).clearDrawFlag hr
    rw [turns_of_step hr hm.step, List.map_cons, hrest]
    rfl

theorem Awaits.afterTurns (hm : m.Awaits x) (hr : m.isRunning = true) (n : Nat) :
    m.afterTurns (n + 1) = .ok (m.waited (n + 1)).clearDrawFlag := by
  induction n generalizing m with
  | zero =>
    rw [afterTurns_of_step hr hm.step]
    rfl
  | succ n ih =>
    -- the turn takes the draw flag down, which no wait looks at or puts up again
    have hrest := ih (hm.waited 1).clearDrawFlag hr
    have hboth := congrArg Machine.clearDrawFlag (waited_waited m 1 (n + 1))
    rw [afterTurns_of_step hr hm.step, hrest, ← hboth]
    rfl

/-! ### The end of a wait -/

/-- `m'` is `m` after it took the lowest key that is down into register `x`. -/
structure Took (x : Nibble) (m m' : Machine) : Prop where
  /-- The register holds the number of a key that is down. -/
  key : ∃ k : Nibble, m'.registers.get x = Nibble.toByte k ∧ m.keypad.keys.get k = true
    ∧ ∀ j < k, m.keypad.keys.get j = false
  /-- No other register is written. -/
  others : ∀ r, r ≠ x → m'.registers.get r = m.registers.get r
  /-- The counter is past the word. -/
  counter : m'.pc.toNat = (m.pc.toNat + 2) % 65536

/-- A key that is down ends the wait. -/
theorem took_of_step (hw : m.fetched = Word.ofNibbles 0xF x 0x0 0xA)
    (hk : ∃ k, m.keypad.keys.get k = true) :
    ∃ m', m.step = .ok (.proceeded, m') ∧ Took x m m' := by
  cases hfirst : m.fetch.keypad.firstDown with
  | none =>
    obtain ⟨k, hdown⟩ := hk
    have hup : m.keypad.keys.get k = false := Keypad.find?_finRange_eq_none_iff.1 hfirst k
    rw [hdown] at hup
    contradiction
  | some k =>
    have he : m.fetch.execute (.awaitKey x)
        = .ok (.proceeded, m.fetch.put x (Nibble.toByte k)) := by
      simp only [execute, hfirst]
    obtain ⟨hdown, hlowest⟩ := Keypad.find?_finRange_eq_some_iff.1 hfirst
    refine ⟨_, step_of_execute (decode_awaitKey hw) he, ⟨k, ?_, hdown, hlowest⟩, ?_, ?_⟩
    · exact Bank.get_put_self
    · intro r hr
      exact Bank.get_put_of_ne hr.symm
    · exact UInt16.toNat_add m.pc 2

end Machine

/-! ### A host that waits -/

namespace Host

variable {h : Host} {x : Nibble}

/-- Steps that wait are answered alike, and a picture is never shown. -/
theorem performAll_of_awaits (hm : h.machine.Awaits x) (n : Nat) :
    ∃ j : Journal, j.frames = h.journal.frames
      ∧ h.performAll (List.replicate (n + 1) .step)
        = .ok (List.replicate (n + 1) (.stepped .waiting),
          { h with machine := h.machine.waited (n + 1), journal := j }) := by
  induction n generalizing h with
  | zero =>
    refine ⟨_, ?_, performAll_of_perform (perform_step hm.step)⟩
    exact Journal.frames_recordStep _ _ _
  | succ n ih =>
    -- the first step leaves a host whose machine waits as well, with another journal
    have hfirst := perform_step hm.step
    generalize hj : h.journal.recordStep h.tracer _ = j at hfirst
    have hframes : j.frames = h.journal.frames := by
      rw [← hj]
      exact Journal.frames_recordStep _ _ _
    obtain ⟨j', hframes', hrest⟩ :=
      ih (h := { h with machine := h.machine.waited 1, journal := j }) (hm.waited 1)
    refine ⟨j', hframes'.trans hframes, ?_⟩
    rw [List.replicate_succ, performAll_of_perform hfirst, hrest, Machine.waited_waited]
    rfl

/-- A tick of a wait makes all of its steps. -/
theorem tick_of_awaits (hm : h.machine.Awaits x) (hr : h.machine.isRunning = true) (n : Nat) :
    ∃ m, (h.withPace n).tick
        = .ok (.running, (h.afterSteps m (h.machine.turns n)).withPace n)
      ∧ (0 < n → m = (h.machine.waited n).clearDrawFlag) := by
  cases n with
  | zero =>
    have ht := tick_of_ok (h := h) (n := 0) rfl
    rw [if_pos hr] at ht
    exact ⟨_, ht, nofun⟩
  | succ n =>
    have hrunning : (h.machine.waited (n + 1)).clearDrawFlag.isRunning = true := hr
    have ht := tick_of_ok (h := h) (hm.afterTurns hr n)
    rw [if_pos hrunning] at ht
    exact ⟨_, ht, fun _ => rfl⟩

/-- **Waiting stutters.** As long as every key is up, any number of steps on a word that waits for a
key are answered with `waiting`, wherever the counter is, and leave everything as it was but the
word that was taken up and the timers, each so much lower or at zero; nobody but an observer is
told. Once a key is down the next step takes the lowest such key, writes no other register and moves
on to the next word. And a tick of a running machine makes all of its steps, as many as there are,
and is answered with `running`. -/
theorem waiting_stutters (hm : h.machine.Awaits x) :
    (∀ n, ∃ h', h.performAll (List.replicate (n + 1) .step)
          = .ok (List.replicate (n + 1) (.stepped .waiting), h')
        ∧ h' = { h with
          machine := { h.machine with
            word := Word.ofNibbles 0xF x 0x0 0xA
            delay := h'.machine.delay
            sound := h'.machine.sound }
          journal := h'.journal }
        ∧ h'.machine.delay.toNat = h.machine.delay.toNat - (n + 1)
        ∧ h'.machine.sound.toNat = h.machine.sound.toNat - (n + 1)
        ∧ h'.journal.frames = h.journal.frames
        ∧ ∀ p : Keypad, (∃ k, p.keys.get k = true) →
          ∃ h'', (h'.withKeypad p).perform .step = .ok (.stepped .proceeded, h'')
            ∧ Machine.Took x (h'.withKeypad p).machine h''.machine)
    ∧ (h.machine.isRunning = true → ∀ n,
        (h.machine.turns n).map Executed.outcome = List.replicate n .waiting
        ∧ ∃ m, (h.withPace n).tick
            = .ok (.running, (h.afterSteps m (h.machine.turns n)).withPace n)
          ∧ (0 < n → m = (h.machine.waited n).clearDrawFlag)) := by
  constructor
  · intro n
    obtain ⟨j, hframes, hsteps⟩ := performAll_of_awaits hm n
    refine ⟨_, hsteps, ?_, Machine.toNat_ofNat_sub _ _, Machine.toNat_ofNat_sub _ _, hframes, ?_⟩
    · rw [← hm.word]
      rfl
    · intro p hp
      have hword := (hm.waited (n + 1)).word
      obtain ⟨m', hs, htook⟩ :=
        Machine.took_of_step (m := (h.machine.waited (n + 1)).withKeypad p) hword hp
      exact ⟨_, perform_step hs, htook⟩
  · intro hr n
    exact ⟨hm.turns hr n, tick_of_awaits hm hr n⟩

/-- A program that waits for a key. -/
def awaitAndStop : Array UInt8 := #[0xF3, 0x0A]

/-- Two steps wait, the timer stands at zero after the first of them, and the lower of two keys ends
the wait. -/
theorem waiting_stutters_awaitAndStop :
    ∃ h h' h'' : Host, h.machine.isRunning = true ∧ h.machine.delay.toNat = 1
      ∧ h.performAll [.step, .step] = .ok ([.stepped .waiting, .stepped .waiting], h')
      ∧ h'.machine.delay.toNat = 0
      ∧ (h'.withKeypad ((Keypad.released.press 9).press 5)).perform .step
        = .ok (.stepped .proceeded, h'')
      ∧ h''.machine.registers.get 3 = 5
      ∧ (h.machine.turns 4).map Executed.outcome = [.waiting, .waiting, .waiting, .waiting]
      ∧ ∃ g, (h.withPace 4).tick = .ok (.running, g) := by
  let m : Machine :=
    { Machine.ofSeed 0 with
      memory := Memory.initial.overlay awaitAndStop
      programSize := 2
      delay := 1 }
  let h : Host := ofMachine m 10
  have hword : m.fetched = Word.ofNibbles 0xF 3 0x0 0xA :=
    (Machine.fetched_overlay (m := m) (k := 0) rfl rfl (by decide) rfl rfl).trans (by decide)
  have hm : h.machine.Awaits 3 := ⟨hword, fun _ => Bank.get_fill⟩
  have hr : h.machine.isRunning = true := by decide
  obtain ⟨hsteps, hticks⟩ := waiting_stutters hm
  obtain ⟨h', hwait, -, hdelay, -, -, hend⟩ := hsteps 1
  obtain ⟨h'', hstep, ⟨k, hregister, hdown, hlowest⟩, -, -⟩ :=
    hend ((Keypad.released.press 9).press 5) ⟨5, by decide⟩
  obtain ⟨hturns, g, htick, -⟩ := hticks hr 4
  have hk : k = 5 := by
    have hpressed : ∀ k, ((Keypad.released.press 9).press 5).keys.get k = true → k = 5 ∨ k = 9 := by
      decide
    rcases hpressed k hdown with rfl | rfl
    · rfl
    · have hup : ((Keypad.released.press 9).press 5).keys.get 5 = false := hlowest 5 (by decide)
      exact absurd hup (by decide)
  refine ⟨h, h', h'', hr, rfl, hwait, hdelay, hstep, ?_, hturns, _, htick⟩
  rw [hregister, hk]
  rfl

end Host

end ChipEight
