import ChipEight.Proofs.Host.Run
import ChipEight.Proofs.Machine.Sprites

namespace ChipEight

/-!
# Sprites along a run — drawings commute and cancel

A list of drawings can be made as it stands, one instruction after the other, or by a program that
is run by steps and ticks while the host moves keys, pauses and asks for the draw flag. Only loading
could change what is drawn. Either way the screen is that of the pictures, in whatever order they
were drawn, and drawings made twice are gone.

* `Machine.Path.painted` — a path whose steps are drawings;
* `Machine.Draws` — the ways of making drawings;
* `Machine.drawings_commute` — order, cancellation, and the flag of a drawing made twice.
-/

namespace Machine

variable {m k : Machine} {es : List Event} {ds : List Drawing}

/-- The instructions of steps are drawings up to the last, which is a drawing too. -/
theorem exists_drawings_of_append {steps : List Executed} {e : Executed}
    (h : (steps ++ [e]).map Executed.instruction = ds.map Drawing.instruction) :
    ∃ before d, ds = before ++ [d]
      ∧ steps.map Executed.instruction = before.map Drawing.instruction
      ∧ e.instruction = d.instruction := by
  rw [List.map_append] at h
  obtain ⟨before, last, rfl, hbefore, hlast⟩ := List.append_eq_map_iff.1 h
  obtain ⟨d, rest, rfl, hd, hnil⟩ := List.map_eq_cons_iff.1 hlast
  obtain rfl := List.map_eq_nil_iff.1 hnil
  exact ⟨before, d, rfl, hbefore.symm, hd.symm⟩

/-- A path that loads nothing and whose steps are drawings makes these drawings. -/
theorem Path.painted (hp : m.Path es k) (hload : ∀ image, .action (.load image) ∉ es)
    (hd : (executed es).map Executed.instruction = ds.map Drawing.instruction) :
    m.Painted ds k := by
  induction hp generalizing ds with
  | nil =>
    obtain rfl := List.map_eq_nil_iff.1 hd.symm
    exact .nil m
  | step hp hs ih =>
    rw [executed_append] at hd
    obtain ⟨before, d, rfl, hbefore, hlast⟩ := exists_drawings_of_append hd
    have hkept := ih (fun image hmem => hload image (List.mem_append_left _ hmem)) hbefore
    exact hkept.step hs hlast
  | turn hp _ hs ih =>
    rw [executed_append] at hd
    obtain ⟨before, d, rfl, hbefore, hlast⟩ := exists_drawings_of_append hd
    have hkept := ih (fun image hmem => hload image (List.mem_append_left _ hmem)) hbefore
    exact (hkept.step hs hlast).congr rfl rfl rfl rfl
  | action a hp ih =>
    rw [executed_append, show executed [.action a] = [] from rfl, List.append_nil] at hd
    have hkept := ih (fun image hmem => hload image (List.mem_append_left _ hmem)) hd
    obtain ⟨-, hindex, hregisters, -, hscreen, -, -⟩ := act_fixed _ a
    refine hkept.congr ?_ hindex hregisters hscreen
    -- no other action reaches the memory
    cases a
    case load image => exact absurd (List.mem_append_right _ List.mem_cons_self) (hload image)
    all_goals rfl

/-- The ways of making drawings: as instructions one after the other, or as the steps of a path that
loads nothing. -/
inductive Draws (m : Machine) (ds : List Drawing) (k : Machine) : Prop
  /-- The instructions were executed as they stand. -/
  | listed : m.executeAll (ds.map Drawing.instruction) = .ok k → Draws m ds k
  /-- A program was run. -/
  | run {es : List Event} : m.Path es k → (∀ image, .action (.load image) ∉ es) →
      (executed es).map Executed.instruction = ds.map Drawing.instruction → Draws m ds k

theorem Draws.painted (h : m.Draws ds k) : m.Painted ds k := by
  cases h with
  | listed he =>
    obtain ⟨l, hl, hp⟩ := (Painted.nil m).executeAll ds
    rw [hl] at he
    cases he
    exact hp
  | run hp hload hd => exact hp.painted hload hd

/-- **Drawings commute and cancel.** Drawings whose places are named by registers other than the
flag register can always be executed, and leave the memory, the index and all registers but the flag
register as they are. Made in any order, from machines with the same screen whose sprites are the
same, they leave the same screen. All of them made and then all of them made again, in any order,
they leave the screen as it was. And after a drawing that was made twice, the flag is one if the
sprite has a bit set, at a place on the screen, where the pixel was unset before the first of the
two, and not otherwise. -/
theorem drawings_commute (m : Machine) (ds : List Drawing) :
    (∃ k, m.executeAll (ds.map Drawing.instruction) = .ok k)
    ∧ (∀ k, m.Draws ds k → k.memory = m.memory ∧ k.index = m.index
        ∧ ∀ r, r ≠ Registers.flag → k.registers.get r = m.registers.get r)
    ∧ (∀ start es k k', m.SameSprites start → start.screen = m.screen → es.Perm ds →
        m.Draws ds k → start.Draws es k' → k'.screen = k.screen)
    ∧ (∀ es k, es.Perm ds → m.Draws (ds ++ es) k → k.screen = m.screen)
    ∧ ∀ d k, m.Draws [d, d] k →
        (k.registers.get Registers.flag = 1
          ↔ ∃ px py, px < 64 ∧ py < 32 ∧ m.Covers d.column d.row d.height px py
            ∧ m.screen.pixel px py = false) := by
  refine ⟨?_, ?_, ?_, ?_, ?_⟩
  · obtain ⟨k, hk, -⟩ := (Painted.nil m).executeAll ds
    exact ⟨k, hk⟩
  · intro k hk
    have hp := hk.painted
    exact ⟨hp.memory, hp.index, hp.registers⟩
  · intro start es k k' hsame hs hperm hk hk'
    exact hk.painted.screen_eq_of_perm hk'.painted hsame hs hperm
  · intro es k hperm hk
    exact hk.painted.screen_eq_of_append hperm
  · intro d k hk
    exact hk.painted.flag_twice

/-- A program that draws the digit zero, a second zero three columns to the right of it, and then
both once more, the second one first. -/
def crossedZeros : Array UInt8 := #[0x62, 0x03, 0xD0, 0x15, 0xD2, 0x15, 0xD2, 0x15, 0xD0, 0x15]

/-- A drawing that the counter stands at in that program is made by the next step. -/
theorem step_crossedZeros {m : Machine} {k : Nat} {high low : UInt8} {d : Drawing}
    (hm : m.memory = Memory.initial.overlay crossedZeros)
    (hpc : m.pc = UInt16.ofNat (Memory.programStart + k))
    (hh : crossedZeros[k]? = some high) (hl : crossedZeros[k + 1]? = some low)
    (hd : Instruction.decode (UInt16.ofNat (high.toNat * 256 + low.toNat)) = d.instruction) :
    m.step = .ok (.drew, (m.fetch.draw d.column d.row d.height).countDown)
      ∧ Instruction.decode m.fetched = d.instruction := by
  have hdecode : Instruction.decode m.fetched = d.instruction := by
    rw [fetched_overlay hm hpc (by decide) hh hl, hd]
  refine ⟨?_, hdecode⟩
  rw [step, hdecode]
  rfl

theorem drawings_commute_crossedZeros :
    ∃ (left right : Drawing) (m start k k' l before after : Machine),
      m.pc = 0x202 ∧ start.pc = 0x206 ∧ m.SameSprites start
      ∧ m.Draws [left, right] k ∧ start.Draws [right, left] k' ∧ k'.screen = k.screen
      ∧ m.Draws [left, right, right, left] l ∧ l.screen = m.screen
      ∧ before.Draws [right, right] after ∧ after.registers.get Registers.flag = 1 := by
  let left : Drawing := ⟨0, 1, 5, by decide, by decide⟩
  let right : Drawing := ⟨2, 1, 5, by decide, by decide⟩
  -- the machine at the first drawing, and the same machine at the third
  let m : Machine :=
    { ofSeed 0 with
      memory := Memory.initial.overlay crossedZeros
      programSize := 10
      registers := Registers.zero.put 2 3
      word := 0x6203
      pc := 0x202 }
  let start : Machine := { m with pc := 0x206 }
  let m₁ := (m.fetch.draw 0 1 5).countDown
  let m₂ := (m₁.fetch.draw 2 1 5).countDown
  let m₃ := (m₂.fetch.draw 2 1 5).countDown
  let start₁ := (start.fetch.draw 2 1 5).countDown
  have h₀ := step_crossedZeros (m := m) (k := 2) (d := left) rfl rfl rfl rfl (by decide)
  have h₁ := step_crossedZeros (m := m₁) (k := 4) (d := right) rfl rfl rfl rfl (by decide)
  have h₂ := step_crossedZeros (m := m₂) (k := 6) (d := right) rfl rfl rfl rfl (by decide)
  have h₃ := step_crossedZeros (m := m₃) (k := 8) (d := left) rfl rfl rfl rfl (by decide)
  have g₀ := step_crossedZeros (m := start) (k := 6) (d := right) rfl rfl rfl rfl (by decide)
  have g₁ := step_crossedZeros (m := start₁) (k := 8) (d := left) rfl rfl rfl rfl (by decide)
  have hk : m.Draws [left, right] _ := .run ((Path.nil.step h₀.1).step h₁.1) (by simp)
    (List.cons_eq_cons.2 ⟨h₀.2, List.cons_eq_cons.2 ⟨h₁.2, rfl⟩⟩)
  have hk' : start.Draws [right, left] _ := .run ((Path.nil.step g₀.1).step g₁.1) (by simp)
    (List.cons_eq_cons.2 ⟨g₀.2, List.cons_eq_cons.2 ⟨g₁.2, rfl⟩⟩)
  have hl : m.Draws [left, right, right, left] _ :=
    .run ((((Path.nil.step h₀.1).step h₁.1).step h₂.1).step h₃.1) (by simp)
      (List.cons_eq_cons.2 ⟨h₀.2, List.cons_eq_cons.2 ⟨h₁.2,
        List.cons_eq_cons.2 ⟨h₂.2, List.cons_eq_cons.2 ⟨h₃.2, rfl⟩⟩⟩⟩)
  have htwice : m₁.Draws [right, right] _ := .run ((Path.nil.step h₁.1).step h₂.1) (by simp)
    (List.cons_eq_cons.2 ⟨h₁.2, List.cons_eq_cons.2 ⟨h₂.2, rfl⟩⟩)
  have hsame : m.SameSprites start := .of_eq rfl rfl fun _ _ => rfl
  -- the top row of the second zero has a pixel that the first zero left unset
  have hzero : (Memory.initial.overlay crossedZeros).read 0 = 0xF0 := by
    show (Memory.initial.overlay crossedZeros)[(Memory.slot 0).val] = _
    rw [Memory.getElem_overlay (by decide), if_neg (by decide), Memory.initial, Vector.getElem_ofFn]
    decide
  have hunset : m₁.screen.pixel 5 0 = false := by
    show (Screen.blank.xor (m.fetch.picture 0 1 5)).pixel 5 0 = false
    rw [Screen.pixel_xor, Screen.pixel_blank, Bool.false_xor, ← Bool.not_eq_true,
      pixel_picture_iff (by decide) (by decide)]
    rintro ⟨-, -, hbit⟩
    have hbyte : ((Memory.initial.overlay crossedZeros).read 0).toBitVec.getMsbD 5 = true := hbit
    rw [hzero] at hbyte
    exact absurd hbyte (by decide)
  have hset : m₁.Covers 2 1 5 5 0 := by
    refine ⟨by decide, by decide, ?_⟩
    show ((Memory.initial.overlay crossedZeros).read 0).toBitVec.getMsbD 2 = true
    rw [hzero]
    decide
  obtain ⟨-, -, horder, hcancel, -⟩ := drawings_commute m [left, right]
  obtain ⟨-, -, -, -, hflag⟩ := drawings_commute m₁ []
  exact ⟨left, right, m, start, _, _, _, m₁, _, rfl, rfl, hsame, hk, hk',
    horder _ _ _ _ hsame rfl (List.Perm.swap _ _ _) hk hk', hl,
    hcancel _ _ (List.Perm.swap _ _ _) hl, htwice,
    (hflag _ _ htwice).2 ⟨5, 0, by decide, by decide, hset, hunset⟩⟩

end Machine

end ChipEight
