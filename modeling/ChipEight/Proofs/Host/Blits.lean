import ChipEight.Proofs.Checked.Framebuffer
import ChipEight.Proofs.Host.Run
import ChipEight.Proofs.Instruction.Decoding
import ChipEight.Proofs.Machine.Blocks
import ChipEight.Proofs.Machine.Sprites

namespace ChipEight

/-!
# Blits — what a drawing does to each pixel, on any screen that a run shows

A drawing turns over the pixels of the screen under the bits of its sprite that are set. The sprite
lies at the place that two registers name, wrapped onto the screen as a whole; no part of it comes
out at the opposite edge. A screen of one byte for each pixel, drawn on byte by byte, shows the same
throughout a run, so that its bytes are never anything but zero and one.

* `Machine.spriteBit`, `Machine.spriteBit_eq_true_iff` — the bit of a sprite over a pixel;
* `Machine.Unsets` — whether a pixel went from set to unset;
* `Machine.Blitted`, `Machine.blitted_draw`, `Machine.blitted_of_step` — the effect of a drawing;
* `Executed.show`, `framebufferAfter` — the bytes of the pixels after steps;
* `Machine.Path.framebufferAfter_eq` — they are those of the screen;
* `Host.blits_of_run` — all of it, for the hosts that runs reach.
-/

namespace Machine

variable {m m' : Machine} {x y n : Nibble} {px py : Nat} {outcome : StepOutcome}

/-! ### The bit over a pixel -/

/-- The bit of a sprite over a pixel, unset for a pixel beside the sprite. Addresses wrap at the top
of the memory. -/
def spriteBit (m : Machine) (x y n : Nibble) (px py : Nat) : Bool :=
  let left := (m.registers.get x).toNat % 64
  let top := (m.registers.get y).toNat % 32
  let byte := m.memory.get ⟨(m.index.toNat + (py - top)) % 4096, Nat.mod_lt _ (by decide)⟩
  decide ((left ≤ px ∧ px < left + 8) ∧ (top ≤ py ∧ py < top + n.val))
    && byte.toNat.testBit (7 - (px - left))

/-- Bits counted from the top are bits counted from the bottom. -/
theorem getMsbD_toBitVec {b : UInt8} {j : Nat} (hj : j < 8) :
    b.toBitVec.getMsbD j = b.toNat.testBit (7 - j) := by
  rw [BitVec.getMsbD_eq_getLsbD, decide_eq_true hj, Bool.true_and]
  rfl

theorem spriteBit_eq_true_iff : m.spriteBit x y n px py = true ↔ m.Covers x y n px py := by
  rw [spriteBit, Bool.and_eq_true, decide_eq_true_iff, Covers, and_assoc, Memory.read_add]
  refine and_congr_right fun hcol => and_congr_right fun _ => ?_
  rw [getMsbD_toBitVec (by omega), Memory.place]

/-! ### The effect of a drawing -/

/-- Whether a pixel is set before and unset after. -/
def Unsets (m m' : Machine) : Prop :=
  ∃ px py, px < 64 ∧ py < 32 ∧ m.screen.pixel px py = true ∧ m'.screen.pixel px py = false

/-- What a machine is after drawing a sprite. -/
structure Blitted (m : Machine) (x y n : Nibble) (m' : Machine) : Prop where
  /-- Pixels under bits that are set are turned over. -/
  pixel : ∀ px py, px < 64 → py < 32 →
    m'.screen.pixel px py = (m.screen.pixel px py ^^ m.spriteBit x y n px py)
  /-- The flag tells whether a pixel was unset. -/
  flag : m.Unsets m' ∧ m'.registers.get Registers.flag = 1
    ∨ ¬ m.Unsets m' ∧ m'.registers.get Registers.flag = 0
  /-- There is something to show. -/
  drawFlag : m'.drawFlag = true
  /-- No other register is written. -/
  registers : ∀ r, r ≠ Registers.flag → m'.registers.get r = m.registers.get r
  /-- Neither are the index, the memory, the call stack and the keys. -/
  rest : m'.index = m.index ∧ m'.memory = m.memory ∧ m'.stack = m.stack ∧ m'.keypad = m.keypad

/-- A drawing turns the pixels over under its picture. -/
theorem pixel_draw (m : Machine) (x y n : Nibble) (hx : px < 64) (hy : py < 32) :
    (m.draw x y n).screen.pixel px py = (m.screen.pixel px py ^^ m.spriteBit x y n px py) := by
  have hpicture : (m.picture x y n).pixel px py = m.spriteBit x y n px py :=
    Bool.eq_iff_iff.2 ((pixel_picture_iff hx hy).trans spriteBit_eq_true_iff.symm)
  show (m.screen.xor (m.picture x y n)).pixel px py = _
  rw [Screen.pixel_xor, hpicture]

/-- A drawing overlaps the screen where it unsets a pixel. -/
theorem overlaps_picture_iff (m : Machine) (x y n : Nibble) :
    m.screen.overlaps (m.picture x y n) = true ↔ m.Unsets (m.draw x y n) := by
  have hunset : ∀ px py, m.screen.pixel px py = true ∧ (m.picture x y n).pixel px py = true
      ↔ m.screen.pixel px py = true ∧ (m.draw x y n).screen.pixel px py = false := by
    intro px py
    show _ ↔ _ ∧ (m.screen.xor (m.picture x y n)).pixel px py = false
    rw [Screen.pixel_xor]
    cases m.screen.pixel px py <;> cases (m.picture x y n).pixel px py <;> decide
  rw [Screen.overlaps_eq_true_iff]
  simp only [hunset]
  rfl

theorem blitted_draw (m : Machine) (x y n : Nibble) : m.Blitted x y n (m.draw x y n) where
  pixel := fun _ _ hx hy => pixel_draw m x y n hx hy
  flag := by
    have hflag : (m.draw x y n).registers.get Registers.flag
        = (m.screen.overlaps (m.picture x y n)).toUInt8 := Registers.get_report_flag
    have hiff := overlaps_picture_iff m x y n
    rw [hflag]
    cases ho : m.screen.overlaps (m.picture x y n) with
    | true => exact .inl ⟨hiff.1 ho, rfl⟩
    | false => exact .inr ⟨fun hun => Bool.noConfusion (ho.symm.trans (hiff.2 hun)), rfl⟩
  drawFlag := rfl
  registers := fun _ hr => Registers.get_report_of_ne hr.symm
  rest := ⟨rfl, rfl, rfl, rfl⟩

/-- A step of a drawing, from the fetch to the count of the timers. -/
theorem blitted_of_step (hi : Instruction.decode m.fetched = .draw x y n) :
    ∃ m', m.step = .ok (.drew, m') ∧ m.Blitted x y n m' := by
  have hd := blitted_draw m.fetch x y n
  refine ⟨(m.fetch.draw x y n).countDown, step_eq_ok_iff.2 ⟨_, by rw [hi]; rfl, rfl⟩, ?_⟩
  exact ⟨hd.pixel, hd.flag, hd.drawFlag, hd.registers, hd.rest⟩

end Machine

/-! ### A byte for each pixel -/

/-- The bytes of the pixels after a step, from those before it. -/
def Executed.show (f : Framebuffer) (e : Executed) : Checked Framebuffer :=
  match e.instruction with
  | .clear => .ok .blank
  | .draw x y n => do
    let t ← Checked.blit e.before x y n f
    .ok t.framebuffer
  | _ => .ok f

/-- The bytes of the pixels after steps of a new machine. -/
def framebufferAfter (steps : List Executed) : Checked Framebuffer :=
  steps.foldlM Executed.show .blank

namespace Machine

variable {start m m' : Machine} {es : List Event} {e : Executed} {outcome : StepOutcome}

/-- What a step shows on the bytes of a screen are the bytes of the screen after it. -/
theorem show_bytes (hs : m.step = .ok (outcome, m')) :
    Executed.show m.screen.bytes ⟨m, outcome, m'⟩ = .ok m'.screen.bytes := by
  obtain ⟨m₁, he, rfl⟩ := step_eq_ok_iff.1 hs
  unfold Executed.show
  split
  case h_1 hi =>
    rw [show Instruction.decode m.fetched = _ from hi] at he
    cases he
    exact congrArg Except.ok Screen.bytes_blank
  case h_2 x y n hi =>
    rw [show Instruction.decode m.fetched = _ from hi] at he
    cases he
    show (Checked.blit m x y n m.screen.bytes >>= _) = _
    rw [Checked.blit_eq]
    rfl
  case h_3 hclear hdraw =>
    have hscreen : m₁.screen = m.fetch.screen := screen_eq_of_execute he hclear hdraw
    exact congrArg (fun s : Screen => Except.ok s.bytes) hscreen.symm

/-- Along a path of a new machine, the bytes of the pixels are those of the screen. -/
theorem Path.framebufferAfter_eq {seed : UInt64} (hp : (ofSeed seed).Path es m) :
    framebufferAfter (executed es) = .ok m.screen.bytes := by
  refine hp.induction (P := fun steps m => framebufferAfter steps = .ok m.screen.bytes) ?_ ?_ ?_
  · exact congrArg Except.ok Screen.bytes_blank
  · intro steps m m' outcome ih hs
    rw [framebufferAfter, List.foldlM_append]
    show (framebufferAfter steps >>= _) = _
    rw [ih, Checked.ok_bind, List.foldlM_cons, show_bytes hs]
    rfl
  · intro steps m a ih
    rw [ih, (act_fixed m a).2.2.2.2.1]

end Machine

namespace Host

/-- **Drawing, pixel by pixel**: wherever a run of a new machine leads, a screen of one byte for
each pixel that was drawn on byte by byte has only bytes zero and one, and they are the pixels of
the machine; and from there every drawing, with any two registers and any height, does to each pixel
what the bit of the sprite over it says, on the bytes as on the pixels. -/
theorem blits_of_run {seed : UInt64} {n : Nat} {es : List Event} {h : Host}
    (hr : (ofSeed seed n).Run es h) :
    ∃ f, framebufferAfter (executed es) = .ok f
      ∧ (∀ px py (hx : px < 64) (hy : py < 32),
        (f[py][px] = 0 ∨ f[py][px] = 1) ∧ (f[py][px] = 1 ↔ h.machine.screen.pixel px py = true))
      ∧ (∀ x y n, ∃ m', h.machine.execute (.draw x y n) = .ok (.drew, m')
        ∧ h.machine.Blitted x y n m'
        ∧ Checked.blit h.machine x y n f = .ok ⟨m'.screen.bytes, m'.registers.get Registers.flag⟩)
      ∧ ((Word.group h.machine.fetched).val = 0xD → ∃ m', h.machine.step = .ok (.drew, m')
        ∧ h.machine.Blitted (Word.x h.machine.fetched) (Word.y h.machine.fetched)
          (Word.low h.machine.fetched) m') := by
  refine ⟨_, hr.path.framebufferAfter_eq, fun px py hx hy => ?_, fun x y n => ?_, fun hg => ?_⟩
  · rw [Screen.getElem_bytes _ hy hx]
    cases h.machine.screen.pixel px py <;> decide
  · exact ⟨_, rfl, Machine.blitted_draw _ x y n, Checked.blit_eq _ x y n⟩
  · exact Machine.blitted_of_step (Word.decode_of_standsFor (.draw hg))

/-- A program that draws the first glyphs where the flag register says. -/
def flagPlaced : Array UInt8 := #[0xDF, 0xFF]

theorem blits_of_run_flagPlaced :
    ∃ (h : Host) (es : List Event) (f : Framebuffer) (m' : Machine),
      (ofSeed 0 1).Run es h ∧ framebufferAfter (executed es) = .ok f
        ∧ (Word.group h.machine.fetched).val = 0xD ∧ h.machine.step = .ok (.drew, m')
        ∧ h.machine.screen.pixel 0 0 = false ∧ m'.screen.pixel 0 0 = true := by
  let m₁ : Machine :=
    { Machine.ofSeed 0 with memory := Memory.initial.overlay flagPlaced, programSize := 2 }
  let h₁ : Host := { ofSeed 0 1 with machine := m₁, journal := ⟨#[], #[], #[.loaded 2]⟩ }
  have hr : (ofSeed 0 1).Run _ h₁ := Run.nil.perform (a := .load flagPlaced) rfl
  have hfetched : h₁.machine.fetched = 0xDFFF :=
    (Machine.fetched_overlay (m := m₁) (k := 0) rfl rfl (by decide) rfl rfl).trans (by decide)
  have hg : (Word.group h₁.machine.fetched).val = 0xD := by
    rw [hfetched]
    decide
  obtain ⟨f, hf, -, -, hstep⟩ := blits_of_run hr
  obtain ⟨m', hs, hblit⟩ := hstep hg
  have hbit : h₁.machine.spriteBit (Word.x h₁.machine.fetched) (Word.y h₁.machine.fetched)
      (Word.low h₁.machine.fetched) 0 0 = true := by
    rw [hfetched]
    refine Machine.spriteBit_eq_true_iff.2 ⟨by decide, by decide, ?_⟩
    show ((Memory.initial.overlay flagPlaced).read 0).toBitVec.getMsbD 0 = true
    rw [Machine.read_overlay, if_neg (by decide), Machine.read_initial]
    decide
  have hunset : h₁.machine.screen.pixel 0 0 = false := Screen.pixel_blank
  have hpixel := hblit.pixel 0 0 (by decide) (by decide)
  rw [hbit, hunset] at hpixel
  exact ⟨h₁, _, f, m', hr, hf, hg, hs, hunset, hpixel⟩

end Host

end ChipEight
