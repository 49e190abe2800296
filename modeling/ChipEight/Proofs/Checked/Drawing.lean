import ChipEight.Proofs.Checked.Machine

namespace ChipEight

/-!
# Drawing — pixel by pixel is all at once

A machine draws by exclusive or with a screen that holds the sprite; the checked machine turns over
the pixels of the sprite one after the other. After any number of them, it has drawn the part of the
sprite that it has gone through, row by row and from the left, and no place was off the screen.

* `Screen.overlaps_eq_true_iff` — what the flag of a drawing tells;
* `Screen.dot` — a screen with a single pixel set;
* `Screen.IsPart` — the part of a picture before some pixel, with `Screen.IsPart.advance`,
  `Screen.IsPart.dot`, `Screen.IsPart.nextRow` and `Screen.IsPart.eq`;
* `Machine.drawn` — a machine with a picture drawn;
* `Checked.plot_drawn`, `Checked.drawRow_drawn` — one pixel more, one row more;
* `Checked.draw_eq` — the whole sprite.
-/

/-! ### Pixels of a byte -/

/-- The pixel of a byte that a mask picks out. -/
theorem and_mask_eq_zero_iff {b : UInt8} {j : Nat} (h : j < 8) :
    b &&& (0x80 >>> UInt8.ofNat j) = 0 ↔ b.toBitVec.getMsbD j = false := by
  have hmasks : ∀ j : Fin 8,
      ((0x80 : UInt8) >>> UInt8.ofNat j.val).toBitVec = BitVec.twoPow 8 (7 - j.val)
        ∧ BitVec.twoPow 8 (7 - j.val) ≠ 0#8 := by decide
  obtain ⟨hmask, hne⟩ := hmasks ⟨j, h⟩
  rw [← UInt8.toBitVec_inj, UInt8.toBitVec_and, hmask, BitVec.and_twoPow,
    BitVec.getMsbD_eq_getLsbD, decide_eq_true h, Bool.true_and]
  cases hb : b.toBitVec.getLsbD (8 - 1 - j) with
  | true => simpa using hne
  | false => simp

namespace Screen

variable {s t p : Screen} {x y r r' c c' : Nat}

/-! ### Pictures -/

/-- Two screens overlap where both have a pixel set. -/
theorem overlaps_eq_true_iff :
    s.overlaps t = true ↔ ∃ x y, x < 64 ∧ y < 32 ∧ s.pixel x y = true ∧ t.pixel x y = true := by
  rw [overlaps, Vector.any_eq_true]
  constructor
  · rintro ⟨y, hy, h⟩
    rw [Vector.getElem_zipWith, bne_iff_ne] at h
    -- a row without a pixel set in both would be zero
    apply Classical.byContradiction
    intro hno
    apply h
    apply BitVec.eq_of_getMsbD_eq
    intro x hx
    show _ = (0#64).getMsbD x
    rw [BitVec.getMsbD_and, BitVec.getMsbD_zero, ← pixel_of_lt hy, ← pixel_of_lt hy]
    cases hs : s.pixel x y with
    | false => rfl
    | true =>
      cases ht : t.pixel x y with
      | false => rfl
      | true => exact absurd ⟨x, y, hx, hy, hs, ht⟩ hno
  · rintro ⟨x, y, hx, hy, hs, ht⟩
    refine ⟨y, hy, ?_⟩
    rw [Vector.getElem_zipWith, bne_iff_ne]
    intro hzero
    have hpixel : (s.rows[y] &&& t.rows[y]).getMsbD x = true := by
      rw [BitVec.getMsbD_and, ← pixel_of_lt hy, ← pixel_of_lt hy, hs, ht]
      rfl
    rw [hzero] at hpixel
    simp at hpixel

/-- A pixel of a sprite is a bit of one of its bytes. -/
theorem pixel_sprite_eq {bytes : List UInt8} (hx : x < 64) (hy : y < 32) :
    (sprite c r bytes).pixel x y
      = (decide (r ≤ y ∧ c ≤ x) && (bytes.getD (y - r) 0).toBitVec.getMsbD (x - c)) := by
  rw [pixel_sprite hy, getMsbD_line, ← Bool.and_assoc, ← Bool.decide_and]
  simp [hx]

/-- The screen with a single pixel set. -/
def dot (c r : Nat) : Screen :=
  sprite c r [0x80]

/-- The top bit of a byte alone is a single pixel. -/
theorem getMsbD_line_top (hx : x < 64) : (line 0x80 c).getMsbD x = decide (x = c) := by
  have hbits : ∀ j : Fin 64, (0x80 : UInt8).toBitVec.getMsbD j.val = decide (j.val = 0) := by decide
  rw [getMsbD_line, hbits ⟨x - c, by omega⟩, Bool.eq_iff_iff]
  simp
  omega

/-- A dot has one pixel. -/
theorem pixel_dot (hx : x < 64) (hy : y < 32) : (dot c r).pixel x y = decide (x = c ∧ y = r) := by
  rw [dot, pixel_sprite hy]
  by_cases hr : y = r
  · subst hr
    rw [Nat.sub_self]
    show (decide (y ≤ y) && (line 0x80 c).getMsbD x) = _
    simp [getMsbD_line_top hx]
  · by_cases hle : r ≤ y
    · obtain ⟨k, hk⟩ : ∃ k, y - r = k + 1 := ⟨y - r - 1, by omega⟩
      simp [hk, hr, getMsbD_line]
    · simp [hr, hle]

@[simp] theorem overlaps_blank : s.overlaps blank = false := by
  rw [Bool.eq_false_iff, ne_eq, overlaps_eq_true_iff]
  rintro ⟨x, y, -, -, -, h⟩
  simp at h

@[simp] theorem xor_blank : s.xor blank = s := by
  apply ext_pixel
  intro x y _ _
  simp

/-- A pixel more overlaps where there was an overlap already and where the screen has it set. -/
theorem overlaps_xor_dot (hc : c < 64) (hr : r < 32) (hp : p.pixel c r = false) :
    s.overlaps (p.xor (dot c r)) = (s.overlaps p || s.pixel c r) := by
  rw [Bool.eq_iff_iff, Bool.or_eq_true, overlaps_eq_true_iff, overlaps_eq_true_iff]
  constructor
  · rintro ⟨x, y, hx, hy, hs, hd⟩
    rw [pixel_xor, pixel_dot hx hy] at hd
    by_cases h : x = c ∧ y = r
    · obtain ⟨rfl, rfl⟩ := h
      exact .inr hs
    · exact .inl ⟨x, y, hx, hy, hs, by simpa [h] using hd⟩
  · rintro (⟨x, y, hx, hy, hs, hpix⟩ | hs)
    · have h : ¬ (x = c ∧ y = r) := by
        rintro ⟨rfl, rfl⟩
        rw [hp] at hpix
        cases hpix
      exact ⟨x, y, hx, hy, hs, by simp [pixel_dot hx hy, h, hpix]⟩
    · exact ⟨c, r, hc, hr, hs, by simp [pixel_dot hc hr, hp]⟩

/-! ### Parts of a picture -/

/-- `p` has the pixels of `s` in the rows before `r` and, in row `r`, in the columns before `c`. -/
def IsPart (p s : Screen) (r c : Nat) : Prop :=
  ∀ x y, x < 64 → y < 32 → p.pixel x y = (decide (y < r ∨ y = r ∧ x < c) && s.pixel x y)

/-- A pixel that comes later is not in a part. -/
theorem IsPart.pixel_eq_false (h : p.IsPart s r c) (hc : c < 64) (hr : r < 32) :
    p.pixel c r = false := by
  simp [h c r hc hr]

/-- The blank screen is the part before the first row that has a pixel. -/
theorem isPart_blank (h : ∀ x y, x < 64 → y < r → s.pixel x y = false) : blank.IsPart s r 0 := by
  intro x y hx _
  by_cases hr : y < r
  · simp [h x y hx hr]
  · simp [hr]

/-- What is a part depends on the pixels that are set and no others. -/
theorem IsPart.congr (h : p.IsPart s r c)
    (hseen : ∀ x y, x < 64 → y < 32 → s.pixel x y = true →
      ((y < r ∨ y = r ∧ x < c) ↔ (y < r' ∨ y = r' ∧ x < c'))) : p.IsPart s r' c' := by
  intro x y hx hy
  rw [h x y hx hy]
  by_cases hpix : s.pixel x y = true
  · rw [decide_eq_decide.2 (hseen x y hx hy hpix)]
  · simp [hpix]

/-- Columns without a pixel are passed over. -/
theorem IsPart.advance (h : p.IsPart s r c) (hc : c ≤ c')
    (hempty : ∀ x, c ≤ x → x < c' → s.pixel x r = false) : p.IsPart s r c' := by
  apply h.congr
  intro x y _ _ hpix
  have hnew : ¬ (y = r ∧ c ≤ x ∧ x < c') := by
    rintro ⟨rfl, hle, hlt⟩
    rw [hempty x hle hlt] at hpix
    cases hpix
  omega

/-- A pixel that is set is added to the part. -/
theorem IsPart.dot (h : p.IsPart s r c) (hpix : s.pixel c r = true) :
    (p.xor (dot c r)).IsPart s r (c + 1) := by
  intro x y hx hy
  rw [pixel_xor, pixel_dot hx hy, h x y hx hy]
  by_cases heq : x = c ∧ y = r
  · obtain ⟨rfl, rfl⟩ := heq
    simp [hpix]
  · have hseen : decide (y < r ∨ y = r ∧ x < c) = decide (y < r ∨ y = r ∧ x < c + 1) := by
      rw [decide_eq_decide]
      omega
    rw [hseen]
    simp [heq]

/-- A row with no pixel left is done. -/
theorem IsPart.nextRow (h : p.IsPart s r c)
    (hempty : ∀ x, c ≤ x → x < 64 → s.pixel x r = false) : p.IsPart s (r + 1) 0 := by
  apply h.congr
  intro x y hx _ hpix
  have hrow : ¬ (y = r ∧ c ≤ x) := by
    rintro ⟨rfl, hle⟩
    rw [hempty x hle hx] at hpix
    cases hpix
  omega

/-- A part with no row left is the picture. -/
theorem IsPart.eq (h : p.IsPart s r 0) (hempty : ∀ x y, x < 64 → r ≤ y → y < 32 →
    s.pixel x y = false) : p = s := by
  apply ext_pixel
  intro x y hx hy
  rw [h x y hx hy]
  by_cases hr : y < r
  · simp [hr]
  · simp [hempty x y hx (Nat.le_of_not_lt hr) hy]

/-- Pictures can be drawn together. -/
theorem xor_assoc : (s.xor t).xor p = s.xor (t.xor p) := by
  apply ext_pixel
  intro x y _ _
  simp

end Screen

/-! ### Drawing a picture -/

/-- A flag reported twice is the flag reported last. -/
theorem Registers.put_report (r : Registers) (a b : Bool) :
    (r.report a).put Registers.flag b.toUInt8 = r.report b := by
  simp [report, Bank.put]

/-- The machine with a picture drawn; the flag tells whether a pixel was unset. -/
def Machine.drawn (m : Machine) (p : Screen) : Machine :=
  { m with
    screen := m.screen.xor p
    registers := m.registers.report (m.screen.overlaps p) }

namespace Checked

open Screen (IsPart dot)

variable {m : Machine} {s p : Screen} {row column k : Nat} {x y n : Nibble} {b : UInt8}

/-! ### Places that are there -/

@[simp] theorem read_eq (memory : Memory) (a : UInt16) : read memory a = .ok (memory.read a) :=
  get_of_lt (Nat.mod_lt _ (by decide))

@[simp] theorem write_eq (memory : Memory) (a : UInt16) (b : UInt8) :
    write memory a b = .ok (memory.write a b) :=
  set_of_lt (Nat.mod_lt _ (by decide))

@[simp] theorem register_eq (m : Machine) (x : Nibble) : register m x = .ok (m.registers.get x) :=
  get_of_lt x.isLt

@[simp] theorem put_eq (m : Machine) (x : Nibble) (b : UInt8) : put m x b = .ok (m.put x b) := by
  rw [put, set_of_lt x.isLt]
  rfl

/-- A pixel on the screen is there. -/
theorem pixel_eq (hr : row < 32) (hc : column < 64) :
    pixel s row column = .ok (s.pixel column row) := by
  rw [pixel, get_of_lt hr, ok_bind, if_pos hc, Screen.pixel_of_lt hr]

/-- To turn a pixel over is to draw a dot. -/
theorem flip_eq (hr : row < 32) (hc : column < 64) :
    flip s row column = .ok (s.xor (dot column row)) := by
  rw [flip, get_of_lt hr, ok_bind, if_pos hc, set_of_lt hr, ok_bind]
  congr 1
  apply Screen.ext_pixel
  intro x y hx hy
  rw [Screen.pixel_xor, Screen.pixel_dot hx hy, Screen.pixel_of_lt hy, Screen.pixel_of_lt hy,
    Vector.getElem_set]
  by_cases heq : row = y
  · subst heq
    simp [Screen.getMsbD_line_top hx]
  · simp [heq, Ne.symm heq]

/-! ### One pixel, one row -/

/-- A pixel that was not drawn yet is added to what was drawn. -/
theorem plot_drawn (hr : row < 32) (hc : column < 64) (hp : p.pixel column row = false) :
    plot (m.drawn p) row column = .ok (m.drawn (p.xor (dot column row))) := by
  have hon : (m.drawn p).screen.pixel column row = m.screen.pixel column row := by
    show (m.screen.xor p).pixel column row = _
    rw [Screen.pixel_xor, hp, Bool.xor_false]
  have hflag : (m.drawn p).registers.get Registers.flag = (m.screen.overlaps p).toUInt8 :=
    Registers.get_report_flag
  have hor : ∀ a b : Bool, a.toUInt8 ||| b.toUInt8 = (a || b).toUInt8 := by decide
  rw [plot, pixel_eq hr hc, ok_bind, register_eq, ok_bind, put_eq, ok_bind, hon, hflag, hor,
    ← Screen.overlaps_xor_dot hc hr hp]
  have hflip : flip (m.screen.xor p) row column
      = .ok (m.screen.xor (p.xor (dot column row))) := by
    rw [flip_eq hr hc, Screen.xor_assoc]
  simp only [Machine.drawn, Machine.put, hflip, ok_bind, Registers.put_report]

/-- A pixel of a sprite is added to the part before it, if it is set. -/
theorem drawPixel_drawn {left top j : Nat} (hj : j < 8) (hr : top + k < 32) (hc : left + j < 64)
    (hpixel : s.pixel (left + j) (top + k) = b.toBitVec.getMsbD j)
    (hp : p.IsPart s (top + k) (left + j)) :
    ∃ p', drawPixel left top k b j (m.drawn p) = .ok (m.drawn p')
      ∧ p'.IsPart s (top + k) (left + (j + 1)) := by
  rw [drawPixel, shiftRight_of_lt hj, ok_bind]
  cases hb : b.toBitVec.getMsbD j with
  | false =>
    rw [hb] at hpixel
    refine ⟨p, if_pos ((and_mask_eq_zero_iff hj).2 hb), hp.advance (Nat.le_succ _) ?_⟩
    intro x hle hlt
    rwa [show x = left + j by omega]
  | true =>
    rw [hb] at hpixel
    have hmask : ¬ b &&& (0x80 >>> UInt8.ofNat j) = 0 := by
      rw [and_mask_eq_zero_iff hj, hb]
      decide
    refine ⟨p.xor (dot (left + j) (top + k)), ?_, hp.dot hpixel⟩
    rw [if_neg hmask, add_of_lt (Nat.lt_trans hr (by decide)), ok_bind,
      add_of_lt (Nat.lt_trans hc (by decide)), ok_bind]
    exact plot_drawn hr hc (hp.pixel_eq_false hc hr)

/-- A row of a sprite is added to the rows before it. -/
theorem drawRow_drawn {left top : Nat} {bytes : List UInt8} (hleft : left < 64)
    (hrow : top + k < 32) (hbyte : bytes.getD k 0 = m.memory.read (m.index + UInt16.ofNat k))
    (hp : p.IsPart (.sprite left top bytes) (top + k) 0) :
    ∃ p', drawRow left top (min 8 (64 - left)) k (m.drawn p) = .ok (m.drawn p')
      ∧ p'.IsPart (.sprite left top bytes) (top + (k + 1)) 0 := by
  have hpixel : ∀ x, x < 64 → (Screen.sprite left top bytes).pixel x (top + k)
      = (decide (left ≤ x)
        && (m.memory.read (m.index + UInt16.ofNat k)).toBitVec.getMsbD (x - left)) := by
    intro x hx
    rw [Screen.pixel_sprite_eq hx hrow, Nat.add_sub_cancel_left, hbyte]
    simp
  -- columns before the sprite have no pixel, and neither have those after its eight
  have hstart : p.IsPart (.sprite left top bytes) (top + k) (left + 0) := by
    refine hp.advance (Nat.zero_le _) ?_
    intro x _ hx
    rw [hpixel x (by omega), decide_eq_false (by omega), Bool.false_and]
  have hloop : ∃ t, drawRow left top (min 8 (64 - left)) k (m.drawn p) = .ok t
      ∧ ∃ p', t = m.drawn p'
        ∧ p'.IsPart (.sprite left top bytes) (top + k) (left + min 8 (64 - left)) := by
    rw [drawRow, read_eq, ok_bind]
    refine loop_ok (fun j t => ∃ p', t = m.drawn p'
      ∧ p'.IsPart (.sprite left top bytes) (top + k) (left + j)) ⟨p, rfl, hstart⟩ ?_
    rintro j t hj ⟨p', rfl, hp'⟩
    have hcol : left + j < 64 := by omega
    have hbit := hpixel (left + j) hcol
    rw [decide_eq_true (Nat.le_add_right _ _), Bool.true_and, Nat.add_sub_cancel_left] at hbit
    obtain ⟨p'', hok, hp''⟩ := drawPixel_drawn (m := m) (by omega) hrow hcol hbit hp'
    exact ⟨_, hok, p'', rfl, hp''⟩
  obtain ⟨t, ht, p', rfl, hp'⟩ := hloop
  refine ⟨p', ht, hp'.nextRow ?_⟩
  intro x hle hlt
  rw [hpixel x hlt, BitVec.getMsbD_of_ge _ _ (by omega), Bool.and_false]

/-- **Drawing agrees.** Drawing pixel by pixel is never refused and draws the sprite. -/
theorem draw_eq (m : Machine) (x y n : Nibble) : draw m x y n = .ok (m.draw x y n) := by
  let left := (m.registers.get x).toNat % 64
  let top := (m.registers.get y).toNat % 32
  let bytes := m.memory.readList m.index n.val
  have hleft : left < 64 := Nat.mod_lt _ (by decide)
  have htop : top < 32 := Nat.mod_lt _ (by decide)
  have hbyte : ∀ k, bytes.getD k 0
      = if k < n.val then m.memory.read (m.index + UInt16.ofNat k) else 0 := by
    intro k
    by_cases hk : k < n.val
    · simp [bytes, Memory.readList, hk]
    · simp [bytes, Memory.readList, hk]
  -- the loop starts with nothing drawn and the flag down
  have hblank : Screen.blank.IsPart (.sprite left top bytes) (top + 0) 0 := by
    apply Screen.isPart_blank
    intro x y hx hy
    rw [Screen.pixel_sprite_eq hx (by omega), decide_eq_false (by omega), Bool.false_and]
  have hclear : m.put Registers.flag 0 = m.drawn .blank := by
    rw [Machine.drawn, Screen.xor_blank, Screen.overlaps_blank]
    rfl
  have hrows : ∃ t, loop (min n.val (32 - top)) (m.drawn .blank)
        (drawRow left top (min 8 (64 - left))) = .ok t
      ∧ ∃ p, t = m.drawn p ∧ p.IsPart (.sprite left top bytes) (top + min n.val (32 - top)) 0 := by
    refine loop_ok (fun k t => ∃ p, t = m.drawn p
      ∧ p.IsPart (.sprite left top bytes) (top + k) 0) ⟨_, rfl, hblank⟩ ?_
    rintro k t hk ⟨p, rfl, hp⟩
    have hb : bytes.getD k 0 = m.memory.read (m.index + UInt16.ofNat k) := by
      rw [hbyte, if_pos (by omega)]
    obtain ⟨p', hok, hp'⟩ := drawRow_drawn hleft (by omega) hb hp
    exact ⟨_, hok, p', rfl, hp'⟩
  obtain ⟨t, ht, p, rfl, hp⟩ := hrows
  -- rows after the last are off the screen or without a byte
  have hsprite : p = .sprite left top bytes := by
    apply hp.eq
    intro x y hx hle hy
    rw [Screen.pixel_sprite_eq hx hy, hbyte, if_neg (by omega)]
    simp
  rw [draw, register_eq, ok_bind, register_eq, ok_bind, sub_of_le (Nat.le_of_lt htop), ok_bind,
    sub_of_le (Nat.le_of_lt hleft), ok_bind, put_eq, ok_bind, hclear, ht, ok_bind, hsprite]
  rfl

end Checked

end ChipEight
