namespace ChipEight

/-!
# Screen — 64 by 32 pixels, drawn on by exclusive or

A row is 64 bits with the leftmost pixel in the top bit. A sprite is laid out as a screen of its
own, blank but for the sprite, and drawing is exclusive or with that screen.

* `Screen.pixel` — one pixel; coordinates off the screen read as unset;
* `Screen.line`, `Screen.sprite` — a byte on a row and a list of bytes on the screen, cut off at the
  right and bottom edge;
* `Screen.xor` — drawing;
* `Screen.overlaps` — whether drawing unsets a pixel.
-/

/-- A picture of 32 rows of 64 pixels. -/
structure Screen where
  /-- The rows, top first. -/
  rows : Vector (BitVec 64) 32
deriving DecidableEq, Repr

namespace Screen

/-- Pixels in a row. -/
abbrev width : Nat := 64

/-- Rows of the screen. -/
abbrev height : Nat := 32

/-- The screen with no pixel set. -/
def blank : Screen where
  rows := Vector.replicate 32 0

/-- Whether a pixel is set; there is none off the screen. -/
def pixel (s : Screen) (x y : Nat) : Bool :=
  match s.rows[y]? with
  | some row => row.getMsbD x
  | none => false

/-- A row with a byte on it, its top bit at column `x`. -/
def line (b : UInt8) (x : Nat) : BitVec 64 :=
  (b.toBitVec ++ 0#56) >>> x

/-- The screen with nothing but a sprite on it, its top left pixel at column `x` of row `y`. -/
def sprite (x y : Nat) (bytes : List UInt8) : Screen where
  rows := Vector.ofFn fun r =>
    if y ≤ r.val then line (bytes.getD (r.val - y) 0) x else 0

/-- The pixels that are set in just one of two screens. -/
def xor (s t : Screen) : Screen where
  rows := Vector.zipWith (· ^^^ ·) s.rows t.rows

/-- Whether some pixel is set in both screens. -/
def overlaps (s t : Screen) : Bool :=
  (Vector.zipWith (· &&& ·) s.rows t.rows).any (· != 0)

/-! ### Pixels of the operations -/

variable {s t : Screen} {x y : Nat}

theorem pixel_of_lt (h : y < 32) : s.pixel x y = s.rows[y].getMsbD x := by
  simp [pixel, h]

theorem pixel_of_le (h : 32 ≤ y) : s.pixel x y = false := by
  simp [pixel, h]

/-- A screen is known by its pixels. -/
theorem ext_pixel (h : ∀ x y, x < 64 → y < 32 → s.pixel x y = t.pixel x y) : s = t := by
  obtain ⟨r⟩ := s
  obtain ⟨q⟩ := t
  congr 1
  apply Vector.ext
  intro y hy
  apply BitVec.eq_of_getMsbD_eq
  intro x hx
  simpa [pixel_of_lt hy] using h x y hx hy

@[simp] theorem pixel_blank : blank.pixel x y = false := by
  by_cases h : y < 32
  · simp [pixel_of_lt h, blank]
  · exact pixel_of_le (by omega)

@[simp] theorem pixel_xor : (s.xor t).pixel x y = (s.pixel x y ^^ t.pixel x y) := by
  by_cases h : y < 32
  · simp [pixel_of_lt h, xor]
  · simp [pixel_of_le (show 32 ≤ y by omega)]

/-- A pixel of a line is a bit of its byte, counted from the column of the byte. -/
theorem getMsbD_line {b : UInt8} {c : Nat} :
    (line b c).getMsbD x = (decide (x < 64 ∧ c ≤ x) && b.toBitVec.getMsbD (x - c)) := by
  rw [line, BitVec.getMsbD_ushiftRight, BitVec.getMsbD_append]
  by_cases h : x < 64 <;> by_cases hc : c ≤ x <;> by_cases h8 : 8 ≤ x - c <;>
    simp [h, hc, h8, BitVec.getMsbD_of_ge]

/-- A pixel of a sprite is a pixel of the line of its row. -/
theorem pixel_sprite {c r : Nat} {bytes : List UInt8} (h : y < 32) :
    (sprite c r bytes).pixel x y
      = (decide (r ≤ y) && (line (bytes.getD (y - r) 0) c).getMsbD x) := by
  rw [pixel_of_lt h]
  by_cases hr : r ≤ y <;> simp [sprite, hr]

end Screen

end ChipEight
