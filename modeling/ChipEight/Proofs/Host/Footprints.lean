import ChipEight.Proofs.Host.Run
import ChipEight.Proofs.Machine.Footprint

namespace ChipEight

/-!
# Footprints along a run — who can change the bytes below the program

The glyphs and the bytes reserved above them lie below the address where programs start. Loading
does not reach them, and neither does anything else that a host can do. What changes one of them is
a step of an instruction that writes to memory and whose bytes, counted around the top of the
memory, include it.

* `Machine.read_act` — the bytes that no action reaches;
* `Machine.Path.writesByte_of_ne` — a byte that changed along a path was written by a step of it;
* `Host.footprints_of_run` — the footprint of every step, and the bytes below the program.
-/

namespace Machine

variable {start m : Machine} {es : List Event} {a : UInt16}

/-- No action reaches a byte below the program. -/
theorem read_act (m : Machine) (x : Action) (ha : (Memory.slot a).val < Memory.programStart) :
    (m.act x).memory.read a = m.memory.read a := by
  cases x
  case load image =>
    simp only [act]
    split
    case h_1 m' h =>
      obtain ⟨-, rfl⟩ := load_eq_ok_iff.1 h
      exact (read_overlay m.memory image a).trans (if_neg (Nat.not_le_of_lt ha))
    case h_2 => rfl
  all_goals rfl

/-- A byte below the program that is not what it was at the start of a path was written by a step of
the path. -/
theorem Path.writesByte_of_ne (hp : start.Path es m)
    (ha : (Memory.slot a).val < Memory.programStart)
    (hne : m.memory.read a ≠ start.memory.read a) :
    ∃ e ∈ executed es, (∃ x, e.instruction = .decimal x ∨ e.instruction = .store x)
      ∧ e.WritesByte a := by
  have hkept : m.memory.read a = start.memory.read a
      ∨ ∃ e ∈ executed es, (∃ x, e.instruction = .decimal x ∨ e.instruction = .store x)
        ∧ e.WritesByte a := by
    refine hp.induction (P := fun steps m => m.memory.read a = start.memory.read a
      ∨ ∃ e ∈ steps, (∃ x, e.instruction = .decimal x ∨ e.instruction = .store x)
        ∧ e.WritesByte a) (.inl rfl) ?_ ?_
    · intro steps m m' outcome hm hs
      by_cases hstep : m'.memory.read a = m.memory.read a
      · -- this step left the byte alone
        rcases hm with hsame | ⟨e, he, hw⟩
        · exact .inl (hstep.trans hsame)
        · exact .inr ⟨e, List.mem_append_left _ he, hw⟩
      · have hw := Executed.writesByte_of_ne (e := ⟨m, outcome, m'⟩) hs hstep
        exact .inr ⟨_, List.mem_append_right _ List.mem_cons_self, hw⟩
    · intro steps m x hm
      rw [read_act m x ha]
      exact hm
  exact hkept.resolve_left hne

end Machine

namespace Host

/-- **Steps keep to their footprints.** Whatever the machine, a step that succeeds takes up its word
and counts both timers down, and changes nothing else that is not in the footprint of its
instruction. Along a run, whatever else is done to the machine, a byte below the program is the one
that was there before the run, unless a step of an instruction that writes decimal digits or
registers to memory wrote it. -/
theorem footprints_of_run {start h : Host} {es : List Event} (hr : start.Run es h) :
    (∀ e : Executed, e.before.step = .ok (e.outcome, e.after) → e.Framed)
    ∧ ∀ a, (Memory.slot a).val < Memory.programStart →
        h.machine.memory.read a ≠ start.machine.memory.read a →
        ∃ e ∈ executed es, (∃ x, e.instruction = .decimal x ∨ e.instruction = .store x)
          ∧ e.WritesByte a :=
  ⟨fun _ he => Executed.framed he, fun _ ha hne => hr.path.writesByte_of_ne ha hne⟩

/-- A program that writes two registers to the last byte of the memory and, around the top, to the
first byte of the glyphs. -/
def storeAroundTop : Array UInt8 := #[0xAF, 0xFF, 0xF1, 0x55]

theorem footprints_of_run_storeAroundTop :
    ∃ d e h, (ofSeed 0 10).Run [.action (.load storeAroundTop), .step d, .step e] h
      ∧ e.instruction = .store 1 ∧ h.machine.memory.read 0x1000 = 0 ∧ e.Framed
      ∧ ∃ e' ∈ [d, e], e'.WritesByte 0x1000 := by
  let m₁ : Machine :=
    { Machine.ofSeed 0 with memory := Memory.initial.overlay storeAroundTop, programSize := 4 }
  let m₂ : Machine := { m₁.fetch with index := 0xFFF }.countDown
  let m₃ : Machine := (m₂.fetch.storeRegisters 1).countDown
  have hindex : Instruction.decode m₁.fetched = .setIndex 0xFFF := by
    rw [Machine.fetched_overlay (m := m₁) (k := 0) rfl rfl (by decide) rfl rfl]
    decide
  have hstore : Instruction.decode m₂.fetched = .store 1 := by
    rw [Machine.fetched_overlay (m := m₂) (k := 2) rfl rfl (by decide) rfl rfl]
    decide
  have hstep₁ : m₁.step = .ok (.proceeded, m₂) := by rw [Machine.step, hindex]; rfl
  have hstep₂ : m₂.step = .ok (.proceeded, m₃) := by rw [Machine.step, hstore]; rfl
  let h₁ : Host := { ofSeed 0 10 with machine := m₁, journal := ⟨#[], #[], #[.loaded 4]⟩ }
  have hr₁ : (ofSeed 0 10).Run [.action (.load storeAroundTop)] h₁ :=
    Run.nil.perform (a := .load storeAroundTop) rfl
  have hr₃ := (hr₁.step hstep₁).step hstep₂
  have hzero : m₃.memory.read 0x1000 = 0 := by
    show (m₂.memory.writeList 0xFFF [0, 0]).read 0x1000 = 0
    exact Memory.read_write_self
  have hglyph : (ofSeed 0 10).machine.memory.read 0x1000 = 0xF0 := by
    show (Vector.ofFn fun i : Fin 4096 => Glyph.table.toList.getD i 0)[Memory.slot 0x1000] = _
    rw [Fin.getElem_fin, Vector.getElem_ofFn]
    decide
  obtain ⟨hframed, hbytes⟩ := footprints_of_run hr₃
  obtain ⟨e', he', -, hw⟩ := hbytes 0x1000 (by decide) (by
    show m₃.memory.read 0x1000 ≠ _
    rw [hzero, hglyph]
    decide)
  exact ⟨_, _, _, hr₃, hstore, hzero, hframed _ hstep₂, e', he', hw⟩

end Host

end ChipEight
