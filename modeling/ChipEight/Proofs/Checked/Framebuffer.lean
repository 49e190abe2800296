import ChipEight.Proofs.Checked.Drawing

namespace ChipEight

/-!
# The framebuffer — drawing on a screen of one byte for each pixel

A framebuffer has a byte in the place of each pixel. Drawing on it turns bytes over by exclusive or
with one and collects the bytes that were there into the flag, so that it can only be right where
every byte is zero or one. On the bytes of a screen it does what drawing on the screen does, byte
for pixel and with the same flag.

* `Framebuffer`, `Screen.bytes` — the bytes of a screen;
* `Blitting`, `Machine.blitting` — a framebuffer and a flag, and those of a machine;
* `Checked.blitPixel`, `Checked.blitRow`, `Checked.blit` — drawing, byte by byte;
* `Checked.loop_ok₂` — the rule for two loops side by side;
* `Checked.blit_eq` — drawing on the bytes of a screen.
-/

/-- A screen of one byte for each pixel, row by row. -/
abbrev Framebuffer := Vector (Vector UInt8 64) 32

/-- The framebuffer with every byte zero. -/
def Framebuffer.blank : Framebuffer :=
  Vector.replicate 32 (Vector.replicate 64 0)

/-- The bytes of a screen: one for a pixel that is set and zero for one that is not. -/
def Screen.bytes (s : Screen) : Framebuffer :=
  Vector.ofFn fun row => Vector.ofFn fun column => (s.pixel column row).toUInt8

/-- A framebuffer that is drawn on, and the flag. -/
structure Blitting where
  /-- The bytes of the pixels. -/
  framebuffer : Framebuffer
  /-- The bytes that were turned over, all in one. -/
  flag : UInt8
deriving DecidableEq

/-- The framebuffer and the flag of a machine. -/
def Machine.blitting (m : Machine) : Blitting where
  framebuffer := m.screen.bytes
  flag := m.registers.get Registers.flag

/-- The machine with a pixel turned over, and the pixel that was there collected into the flag. -/
def Machine.plotted (m : Machine) (row column : Nat) : Machine :=
  { m.put Registers.flag (m.registers.get Registers.flag ||| (m.screen.pixel column row).toUInt8)
    with screen := m.screen.xor (.dot column row) }

/-! ### The bytes of a screen -/

namespace Screen

theorem getElem_bytes (s : Screen) {row column : Nat} (hr : row < 32) (hc : column < 64) :
    s.bytes[row][column] = (s.pixel column row).toUInt8 := by
  simp [bytes]

/-- A framebuffer whose bytes are those of the pixels. -/
theorem bytes_eq {s : Screen} {f : Framebuffer}
    (h : ∀ row column (hr : row < 32) (hc : column < 64),
      f[row][column] = (s.pixel column row).toUInt8) : f = s.bytes := by
  apply Vector.ext
  intro row hr
  apply Vector.ext
  intro column hc
  rw [h row column hr hc, getElem_bytes]

theorem bytes_blank : Framebuffer.blank = blank.bytes := by
  apply bytes_eq
  intro row column hr hc
  rw [pixel_blank, Framebuffer.blank, Vector.getElem_replicate, Vector.getElem_replicate]
  rfl

end Screen

namespace Checked

variable {σ τ : Type} {s : Screen} {m : Machine} {row column left top k j n : Nat} {b : UInt8}

/-! ### Drawing byte by byte -/

/-- The byte of a pixel. -/
def cell (f : Framebuffer) (row column : Nat) : Checked UInt8 := do
  let line ← get f row
  get line column

/-- The framebuffer with another byte for a pixel. -/
def putCell (f : Framebuffer) (row column : Nat) (b : UInt8) : Checked Framebuffer := do
  let line ← get f row
  let line ← set line column b
  set f row line

/-- Turns the byte of a pixel over, and collects the byte that was there. -/
def turnCell (row column : Nat) (t : Blitting) : Checked Blitting := do
  let old ← cell t.framebuffer row column
  let framebuffer ← putCell t.framebuffer row column (old ^^^ 1)
  .ok { framebuffer, flag := t.flag ||| old }

/-- Draws pixel `j` of row `k` of a sprite, if the byte of the row has it set. -/
def blitPixel (left top k : Nat) (byte : UInt8) (j : Nat) (t : Blitting) : Checked Blitting := do
  let mask ← shiftRight 0x80 j
  if byte &&& mask = 0 then
    .ok t
  else
    let row ← add sizeLimit top k
    let column ← add sizeLimit left j
    turnCell row column t

/-- Draws row `k` of the sprite at the index of a machine, `columns` pixels of it. -/
def blitRow (m : Machine) (left top columns k : Nat) (t : Blitting) : Checked Blitting := do
  let byte ← read m.memory (m.index + UInt16.ofNat k)
  loop columns t (blitPixel left top k byte)

/-- Draws the sprite of `n` bytes at the index of a machine, the flag down at first. -/
def blit (m : Machine) (x y n : Nibble) (f : Framebuffer) : Checked Blitting := do
  let a ← register m x
  let b ← register m y
  let below ← sub 32 (b.toNat % 32)
  let beside ← sub 64 (a.toNat % 64)
  loop (min n.val below) ⟨f, 0⟩ (blitRow m (a.toNat % 64) (b.toNat % 32) (min 8 beside))

/-! ### Two loops side by side -/

/-- **Loop rule for two loops.** A relation that holds at first, and under which every round of both
loops succeeds and keeps it, holds at the end of both, and both succeed. -/
theorem loop_ok₂ {s : σ} {t : τ} {body : Nat → σ → Checked σ} {body' : Nat → τ → Checked τ}
    (R : σ → τ → Prop) (hstart : R s t)
    (hround : ∀ k s t, k < n → R s t →
      ∃ s' t', body k s = .ok s' ∧ body' k t = .ok t' ∧ R s' t') :
    ∃ s' t', loop n s body = .ok s' ∧ loop n t body' = .ok t' ∧ R s' t' := by
  induction n with
  | zero => exact ⟨s, t, rfl, rfl, hstart⟩
  | succ n ih =>
    obtain ⟨s₁, t₁, hs₁, ht₁, h₁⟩ := ih fun k s t hk => hround k s t (Nat.lt_succ_of_lt hk)
    obtain ⟨s₂, t₂, hs₂, ht₂, h₂⟩ := hround n s₁ t₁ (Nat.lt_succ_self n) h₁
    exact ⟨s₂, t₂, by rw [loop_succ, hs₁]; exact hs₂, by rw [loop_succ, ht₁]; exact ht₂, h₂⟩

/-! ### One pixel -/

theorem cell_bytes (hr : row < 32) (hc : column < 64) :
    cell s.bytes row column = .ok (s.pixel column row).toUInt8 := by
  rw [cell, get_of_lt hr, ok_bind, get_of_lt hc]
  simp [Screen.bytes]

/-- To turn the byte of a pixel over is to draw a dot. -/
theorem putCell_bytes (hr : row < 32) (hc : column < 64) :
    putCell s.bytes row column ((s.pixel column row).toUInt8 ^^^ 1)
      = .ok (s.xor (.dot column row)).bytes := by
  have hturn : ∀ b : Bool, b.toUInt8 ^^^ 1 = (b ^^ true).toUInt8 := by decide
  rw [putCell, get_of_lt hr, ok_bind, set_of_lt hc, ok_bind, set_of_lt hr]
  refine congrArg Except.ok (Screen.bytes_eq fun y x hy hx => ?_)
  rw [Screen.pixel_xor, Screen.pixel_dot hx hy, Vector.getElem_set]
  split
  case isTrue hrow =>
    subst hrow
    rw [Vector.getElem_set]
    split
    case isTrue hcol =>
      subst hcol
      simp [hturn]
    case isFalse hcol => simp [Screen.getElem_bytes, Ne.symm hcol]
  case isFalse hrow => simp [Screen.getElem_bytes, Ne.symm hrow]

theorem plot_eq (hr : row < 32) (hc : column < 64) :
    plot m row column = .ok (m.plotted row column) := by
  rw [plot, pixel_eq hr hc, ok_bind, register_eq, ok_bind, put_eq, ok_bind]
  show (flip m.screen row column >>= _) = _
  rw [flip_eq hr hc]
  rfl

theorem turnCell_blitting (hr : row < 32) (hc : column < 64) :
    turnCell row column m.blitting = .ok (m.plotted row column).blitting := by
  have hplotted : (m.plotted row column).blitting
      = ⟨(m.screen.xor (.dot column row)).bytes,
        m.registers.get Registers.flag ||| (m.screen.pixel column row).toUInt8⟩ :=
    congrArg (Blitting.mk _) Bank.get_put_self
  rw [hplotted]
  show (cell m.screen.bytes row column >>= _) = _
  rw [cell_bytes hr hc, ok_bind]
  show (putCell m.screen.bytes row column _ >>= _) = _
  rw [putCell_bytes hr hc]
  rfl

/-! ### One row, all rows -/

/-- A framebuffer and a machine that show the same, where the machine has the memory and the index
of the machine that the drawing began with. -/
def Alike (start m : Machine) (t : Blitting) : Prop :=
  t = m.blitting ∧ m.memory = start.memory ∧ m.index = start.index

variable {start : Machine} {t : Blitting}

theorem Alike.drawPixel (h : Alike start m t) (hj : j < 8) (hr : top + k < 32)
    (hc : left + j < 64) :
    ∃ m' t', drawPixel left top k b j m = .ok m' ∧ blitPixel left top k b j t = .ok t'
      ∧ Alike start m' t' := by
  obtain ⟨rfl, hmem, hindex⟩ := h
  rw [Checked.drawPixel, blitPixel, shiftRight_of_lt hj, ok_bind, ok_bind]
  split
  case isTrue => exact ⟨_, _, rfl, rfl, rfl, hmem, hindex⟩
  case isFalse =>
    rw [add_of_lt (Nat.lt_trans hr (by decide)), ok_bind, ok_bind,
      add_of_lt (Nat.lt_trans hc (by decide)), ok_bind, ok_bind]
    exact ⟨_, _, plot_eq hr hc, turnCell_blitting hr hc, rfl, hmem, hindex⟩

theorem Alike.drawRow (h : Alike start m t) (hr : top + k < 32) :
    ∃ m' t', drawRow left top (min 8 (64 - left)) k m = .ok m'
      ∧ blitRow start left top (min 8 (64 - left)) k t = .ok t' ∧ Alike start m' t' := by
  obtain ⟨-, hmem, hindex⟩ := id h
  rw [Checked.drawRow, blitRow, hmem, hindex, read_eq, ok_bind, ok_bind]
  refine loop_ok₂ (Alike start) h fun j m t hj hmt => ?_
  exact hmt.drawPixel (by omega) hr (by omega)

/-- **Framebuffers agree.** Drawing on the bytes of a screen is never refused; it leaves the bytes
of the screen that is drawn on, and the same flag. -/
theorem blit_eq (m : Machine) (x y n : Nibble) :
    blit m x y n m.screen.bytes = .ok (m.draw x y n).blitting := by
  let left := (m.registers.get x).toNat % 64
  let top := (m.registers.get y).toNat % 32
  have hleft : left < 64 := Nat.mod_lt _ (by decide)
  have htop : top < 32 := Nat.mod_lt _ (by decide)
  -- both loops start with the flag down
  have hstart : Alike m (m.put Registers.flag 0) ⟨m.screen.bytes, 0⟩ :=
    ⟨congrArg (Blitting.mk _) Bank.get_put_self.symm, rfl, rfl⟩
  have hround : ∀ k m' t, k < min n.val (32 - top) → Alike m m' t →
      ∃ m'' t', drawRow left top (min 8 (64 - left)) k m' = .ok m''
        ∧ blitRow m left top (min 8 (64 - left)) k t = .ok t' ∧ Alike m m'' t' :=
    fun k m' t hk halike => halike.drawRow (by omega)
  obtain ⟨m', t', hm', ht', rfl, -, -⟩ := loop_ok₂ (Alike m) hstart hround
  have hdraw := draw_eq m x y n
  rw [draw, register_eq, ok_bind, register_eq, ok_bind, sub_of_le (Nat.le_of_lt htop), ok_bind,
    sub_of_le (Nat.le_of_lt hleft), ok_bind, put_eq, ok_bind, hm', ok_bind] at hdraw
  rw [blit, register_eq, ok_bind, register_eq, ok_bind, sub_of_le (Nat.le_of_lt htop), ok_bind,
    sub_of_le (Nat.le_of_lt hleft), ok_bind, ht', ← Except.ok.inj hdraw]
  rfl

end Checked

end ChipEight
