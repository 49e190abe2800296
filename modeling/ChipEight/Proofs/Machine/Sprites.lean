import ChipEight.Proofs.Checked.Drawing
import ChipEight.Proofs.Machine.Effects

namespace ChipEight

/-!
# Sprites — drawings that do not disturb each other

A drawing is an exclusive or with a picture. The picture depends on the index, on the bytes from
there on and on the two registers that name its place; if neither of these is the flag register, no
drawing touches any of them. So drawings made one after the other leave the exclusive or of all
their pictures, whatever their order, and the last of them tells in the flag register whether it
unset a pixel.

* `Screen.xorAll` — a screen with several pictures drawn, with `Screen.xorAll_perm` and
  `Screen.xorAll_append_perm`;
* `Machine.picture`, `Machine.Covers`, `Machine.pixel_picture_iff` — the picture of a drawing, and
  its pixels;
* `Drawing` — a drawing whose place is not in the flag register;
* `Machine.SameSprites` — machines whose drawings have the same pictures;
* `Machine.Painted` — a machine with drawings made, with `Machine.Painted.step` and
  `Machine.Painted.flag_twice`;
* `Machine.executeAll`, `Machine.Painted.executeAll` — instructions one after the other, and that
  drawings never fail.
-/

/-! ### Pictures drawn one after the other -/

namespace Screen

variable {s p q : Screen} {ps qs : List Screen}

theorem xor_right_comm : (s.xor p).xor q = (s.xor q).xor p := by
  apply ext_pixel
  intro x y _ _
  rw [pixel_xor, pixel_xor, pixel_xor, pixel_xor, Bool.xor_right_comm]

/-- A picture drawn twice is gone. -/
theorem xor_xor_self : (s.xor p).xor p = s := by
  apply ext_pixel
  intro x y _ _
  rw [pixel_xor, pixel_xor, Bool.xor_assoc, Bool.xor_self, Bool.xor_false]

/-- The screen with pictures drawn one after the other. -/
def xorAll (s : Screen) (ps : List Screen) : Screen :=
  ps.foldl xor s

theorem xorAll_cons : s.xorAll (p :: ps) = (s.xor p).xorAll ps := rfl

theorem xorAll_append : s.xorAll (ps ++ qs) = (s.xorAll ps).xorAll qs :=
  List.foldl_append

/-- The order of pictures does not matter. -/
theorem xorAll_perm (h : ps.Perm qs) : s.xorAll ps = s.xorAll qs :=
  h.foldl_eq' (fun _ _ _ _ _ => xor_right_comm) s

/-- Pictures drawn a second time are gone. -/
theorem xorAll_append_self : s.xorAll (ps ++ ps) = s := by
  induction ps generalizing s with
  | nil => rfl
  | cons p ps ih =>
    -- the first picture meets its double
    have hmeet : (p :: ps ++ p :: ps).Perm (p :: p :: (ps ++ ps)) :=
      List.Perm.cons p List.perm_middle
    rw [xorAll_perm hmeet, xorAll_cons, xorAll_cons, xor_xor_self, ih]

/-- Pictures drawn a second time, in any order, are gone. -/
theorem xorAll_append_perm (h : qs.Perm ps) : s.xorAll (ps ++ qs) = s := by
  rw [xorAll_perm (h.append_left ps), xorAll_append_self]

/-- A picture drawn again unsets a pixel if one of its pixels was unset before it was drawn. -/
theorem overlaps_xor_self :
    (s.xor p).overlaps p = true
      ↔ ∃ x y, x < 64 ∧ y < 32 ∧ p.pixel x y = true ∧ s.pixel x y = false := by
  have hpixel : ∀ x y, (s.xor p).pixel x y = true ∧ p.pixel x y = true
      ↔ p.pixel x y = true ∧ s.pixel x y = false := by
    intro x y
    rw [pixel_xor]
    cases s.pixel x y <;> cases p.pixel x y <;> decide
  rw [overlaps_eq_true_iff]
  simp only [hpixel]

end Screen

/-! ### The picture of a drawing -/

namespace Machine

variable {m k l : Machine} {x y n : Nibble} {px py : Nat}

/-- The picture of the sprite of `n` bytes at the index, where two registers place it. -/
def picture (m : Machine) (x y n : Nibble) : Screen :=
  .sprite ((m.registers.get x).toNat % 64) ((m.registers.get y).toNat % 32)
    (m.memory.readList m.index n.val)

/-- Whether a sprite has a bit set at a place on the screen: its left top bit lies where the two
registers say, wrapped onto the screen, and each byte gives the eight bits of one row. -/
def Covers (m : Machine) (x y n : Nibble) (px py : Nat) : Prop :=
  let left := (m.registers.get x).toNat % 64
  let top := (m.registers.get y).toNat % 32
  (left ≤ px ∧ px < left + 8) ∧ (top ≤ py ∧ py < top + n.val)
    ∧ (m.memory.read (m.index + UInt16.ofNat (py - top))).toBitVec.getMsbD (px - left) = true

/-- A pixel of a picture is a bit of the sprite. -/
theorem pixel_picture_iff (hx : px < 64) (hy : py < 32) :
    (m.picture x y n).pixel px py = true ↔ m.Covers x y n px py := by
  rw [picture, Screen.pixel_sprite_eq hx hy, Bool.and_eq_true, decide_eq_true_iff, Covers]
  by_cases hrow : py - (m.registers.get y).toNat % 32 < n.val
  · -- the row has a byte of the sprite
    have hbyte : (m.memory.readList m.index n.val).getD (py - (m.registers.get y).toNat % 32) 0
        = m.memory.read (m.index + UInt16.ofNat (py - (m.registers.get y).toNat % 32)) := by
      simp [Memory.readList, hrow]
    rw [hbyte]
    constructor
    · rintro ⟨⟨htop, hleft⟩, hbit⟩
      -- a byte has eight bits
      have hcol : px - (m.registers.get x).toNat % 64 < 8 := by
        apply Nat.lt_of_not_le
        intro hge
        rw [BitVec.getMsbD_of_ge _ _ hge] at hbit
        cases hbit
      exact ⟨⟨hleft, by omega⟩, ⟨htop, by omega⟩, hbit⟩
    · rintro ⟨⟨hleft, -⟩, ⟨htop, -⟩, hbit⟩
      exact ⟨⟨htop, hleft⟩, hbit⟩
  · -- past the last row there is no byte
    have hbyte : (m.memory.readList m.index n.val).getD (py - (m.registers.get y).toNat % 32) 0
        = 0 := by
      simp [Memory.readList, hrow]
    rw [hbyte]
    constructor
    · rintro ⟨-, hbit⟩
      simp at hbit
    · rintro ⟨-, ⟨htop, hlt⟩, -⟩
      omega

/-- A drawing is the picture drawn, and the draw flag put up. -/
theorem execute_draw (m : Machine) (x y n : Nibble) :
    m.execute (.draw x y n) = .ok (.drew, { m.drawn (m.picture x y n) with drawFlag := true }) :=
  rfl

end Machine

/-! ### Drawings that leave their place alone -/

/-- A drawing whose place is named by registers other than the flag register. -/
structure Drawing where
  /-- The register of the column. -/
  column : Nibble
  /-- The register of the row. -/
  row : Nibble
  /-- How many rows are drawn. -/
  height : Nibble
  /-- Drawing does not write the register of the column. -/
  column_ne : column ≠ Registers.flag
  /-- Drawing does not write the register of the row. -/
  row_ne : row ≠ Registers.flag
deriving DecidableEq

/-- The instruction of a drawing. -/
def Drawing.instruction (d : Drawing) : Instruction :=
  .draw d.column d.row d.height

namespace Machine

variable {m k l : Machine} {ds : List Drawing} {d : Drawing}

/-- Two machines whose drawings have the same pictures: the index, the bytes from there on that a
sprite can have, and the registers but for the flag register are the same. -/
structure SameSprites (m k : Machine) : Prop where
  /-- Sprites begin at the same address. -/
  index : k.index = m.index
  /-- A sprite has fifteen bytes at most. -/
  bytes : ∀ j < 15, k.memory.read (m.index + UInt16.ofNat j)
    = m.memory.read (m.index + UInt16.ofNat j)
  /-- Any other register can name a place. -/
  registers : ∀ r, r ≠ Registers.flag → k.registers.get r = m.registers.get r

/-- Machines that share the index, the memory and the registers. -/
theorem SameSprites.of_eq (hi : k.index = m.index) (hm : k.memory = m.memory)
    (hr : ∀ r, r ≠ Registers.flag → k.registers.get r = m.registers.get r) : m.SameSprites k where
  index := hi
  bytes := fun _ _ => by rw [hm]
  registers := hr

theorem SameSprites.picture_eq (h : m.SameSprites k) (d : Drawing) :
    k.picture d.column d.row d.height = m.picture d.column d.row d.height := by
  have hbytes : k.memory.readList k.index d.height.val
      = m.memory.readList m.index d.height.val := by
    apply List.map_congr_left
    intro j hj
    have hlt : j < d.height.val := List.mem_range.1 hj
    rw [h.index]
    exact h.bytes j (by omega)
  rw [picture, picture, h.registers _ d.column_ne, h.registers _ d.row_ne, hbytes]

/-! ### Machines with drawings made -/

/-- The pictures of drawings. -/
def sprites (m : Machine) (ds : List Drawing) : List Screen :=
  ds.map fun d => m.picture d.column d.row d.height

theorem sprites_append (m : Machine) (ds es : List Drawing) :
    m.sprites (ds ++ es) = m.sprites ds ++ m.sprites es :=
  List.map_append

/-- `k` is `m` with drawings made: their pictures were drawn, what they depend on is as it was, and
the flag register tells of the last of them. -/
structure Painted (m : Machine) (ds : List Drawing) (k : Machine) : Prop where
  /-- No drawing writes to memory. -/
  memory : k.memory = m.memory
  /-- No drawing moves the index. -/
  index : k.index = m.index
  /-- No register but the flag register is written. -/
  registers : ∀ r, r ≠ Registers.flag → k.registers.get r = m.registers.get r
  /-- Every picture is the one that it would have been at the beginning. -/
  screen : k.screen = m.screen.xorAll (m.sprites ds)
  /-- The last drawing is judged by the screen that the others left. -/
  flag : ∀ before d, ds = before ++ [d] → k.registers.get Registers.flag
    = ((m.screen.xorAll (m.sprites before)).overlaps
        (m.picture d.column d.row d.height)).toUInt8

theorem Painted.sameSprites (h : m.Painted ds k) : m.SameSprites k :=
  .of_eq h.index h.memory h.registers

theorem Painted.nil (m : Machine) : m.Painted [] m where
  memory := rfl
  index := rfl
  registers := fun _ _ => rfl
  screen := rfl
  flag := by
    intro before d h
    exact absurd h (List.append_ne_nil_of_right_ne_nil before (List.cons_ne_nil d [])).symm

/-- What else a machine holds has nothing to do with drawings. -/
theorem Painted.congr (h : m.Painted ds k) (hm : l.memory = k.memory) (hi : l.index = k.index)
    (hr : l.registers = k.registers) (hs : l.screen = k.screen) : m.Painted ds l where
  memory := hm.trans h.memory
  index := hi.trans h.index
  registers := fun r hne => by rw [hr, h.registers r hne]
  screen := hs.trans h.screen
  flag := fun before d hds => by rw [hr, h.flag before d hds]

/-- One drawing more. -/
theorem Painted.execute {outcome : StepOutcome} (h : m.Painted ds k)
    (he : k.execute d.instruction = .ok (outcome, l)) : m.Painted (ds ++ [d]) l := by
  -- the drawings before it left all that its picture depends on
  rw [Drawing.instruction, execute_draw, h.sameSprites.picture_eq] at he
  cases he
  exact {
    memory := h.memory
    index := h.index
    registers := by
      intro r hr
      rw [← h.registers r hr]
      exact Registers.get_report_of_ne hr.symm
    screen := by
      show k.screen.xor _ = _
      rw [h.screen, sprites_append, Screen.xorAll_append]
      rfl
    flag := by
      intro before d' hds
      obtain ⟨rfl, hd⟩ := List.append_inj' hds rfl
      obtain rfl := List.head_eq_of_cons_eq hd
      show (k.registers.report _).get Registers.flag = _
      rw [Registers.get_report_flag, h.screen] }

/-- A drawing that is the instruction of a step. -/
theorem Painted.step {outcome : StepOutcome} (h : m.Painted ds k)
    (hs : k.step = .ok (outcome, l)) (hd : Instruction.decode k.fetched = d.instruction) :
    m.Painted (ds ++ [d]) l := by
  obtain ⟨k₁, he, rfl⟩ := step_eq_ok_iff.1 hs
  rw [hd] at he
  have hfetch : m.Painted ds k.fetch := h.congr rfl rfl rfl rfl
  exact (hfetch.execute he).congr rfl rfl rfl rfl

/-- Drawings of the same pictures in another order leave the same screen. -/
theorem Painted.screen_eq_of_perm {start stop : Machine} {es : List Drawing}
    (h : m.Painted ds k) (h' : start.Painted es stop) (hsame : m.SameSprites start)
    (hs : start.screen = m.screen) (hp : es.Perm ds) : stop.screen = k.screen := by
  have hsprites : start.sprites es = m.sprites es :=
    List.map_congr_left fun d _ => hsame.picture_eq d
  rw [h'.screen, h.screen, hs, hsprites]
  exact Screen.xorAll_perm (hp.map _)

/-- Drawings that are all made once more, in any order, leave the screen as it was. -/
theorem Painted.screen_eq_of_append {es : List Drawing} (h : m.Painted (ds ++ es) k)
    (hp : es.Perm ds) : k.screen = m.screen := by
  rw [h.screen, sprites_append]
  exact Screen.xorAll_append_perm (hp.map _)

/-- A drawing that was made just before unsets a pixel if one of the bits of its sprite that are on
the screen found its pixel unset the first time. -/
theorem Painted.flag_twice (h : m.Painted [d, d] k) :
    k.registers.get Registers.flag = 1
      ↔ ∃ px py, px < 64 ∧ py < 32 ∧ m.Covers d.column d.row d.height px py
        ∧ m.screen.pixel px py = false := by
  -- the second drawing is judged by the screen with its own picture on it
  have hflag := h.flag [d] d rfl
  have hone : ∀ b : Bool, b.toUInt8 = 1 ↔ b = true := by decide
  rw [hflag, hone]
  show (m.screen.xor _).overlaps _ = true ↔ _
  rw [Screen.overlaps_xor_self]
  constructor
  · rintro ⟨px, py, hx, hy, hset, hunset⟩
    exact ⟨px, py, hx, hy, (pixel_picture_iff hx hy).1 hset, hunset⟩
  · rintro ⟨px, py, hx, hy, hcovers, hunset⟩
    exact ⟨px, py, hx, hy, (pixel_picture_iff hx hy).2 hcovers, hunset⟩

/-! ### Instructions one after the other -/

/-- The machine after instructions one after the other, or the fault of the one that failed. -/
def executeAll (m : Machine) : List Instruction → Except Fault Machine
  | [] => .ok m
  | i :: rest =>
    match m.execute i with
    | .ok (_, m') => m'.executeAll rest
    | .error f => .error f

/-- Drawings never fail. -/
theorem Painted.executeAll (h : m.Painted ds k) (later : List Drawing) :
    ∃ l, k.executeAll (later.map Drawing.instruction) = .ok l ∧ m.Painted (ds ++ later) l := by
  induction later generalizing ds k with
  | nil => exact ⟨k, rfl, by rwa [List.append_nil]⟩
  | cons d later ih =>
    have he := execute_draw k d.column d.row d.height
    obtain ⟨l, hl, hp⟩ := ih (h.execute he)
    refine ⟨l, ?_, ?_⟩
    · rw [List.map_cons, Machine.executeAll, Drawing.instruction, he]
      exact hl
    · rwa [List.append_assoc, List.singleton_append] at hp

end Machine

end ChipEight
