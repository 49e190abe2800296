namespace ChipEight.Utf8

/-!
# Byte ranges — a range of characters as sequences of byte ranges

Characters are written in one to four bytes. A range of characters falls apart into sequences of
byte ranges, such that a text is a character of the range if its bytes are, one by one, in the
ranges of one sequence.

* `Span` — a sequence of byte ranges;
* `weight`, `digits` — the spans of a range of numbers in base sixty-four;
* `Width`, `widths` — the characters that take so many bytes, and what their first bytes start from;
* `spans` — the spans of a range of code points.
-/

/-- A sequence of closed byte ranges. -/
abbrev Span := List (Nat × Nat)

/-- What a digit in base sixty-four counts with so many digits behind it. -/
def weight : Nat → Nat
  | 0 => 1
  | n + 1 => 64 * weight n

/-- The spans of the numbers from `lo` to `hi` with so many digits in base sixty-four behind the
first one. `lead` is what the first byte starts from; the others start from `0x80`. -/
def digits (lead : Nat) : Nat → Nat → Nat → List Span
  | 0, lo, hi => [[(lead + lo, lead + hi)]]
  | n + 1, lo, hi =>
    let unit := weight (n + 1)
    let first := lo / unit
    let last := hi / unit
    let on (a b : Nat) (rest : List Span) : List Span := rest.map ((lead + a, lead + b) :: ·)
    if first = last then
      on first last (digits 0x80 n (lo % unit) (hi % unit))
    else
      let start := if lo % unit = 0 then first else first + 1
      let stop := if hi % unit = unit - 1 then last + 1 else last
      (if lo % unit = 0 then [] else on first first (digits 0x80 n (lo % unit) (unit - 1)))
        ++ (if start < stop then on start (stop - 1) (digits 0x80 n 0 (unit - 1)) else [])
        ++ (if hi % unit = unit - 1 then [] else on last last (digits 0x80 n 0 (hi % unit)))

/-- The characters that take a number of bytes. -/
structure Width where
  /-- The first of their code points. -/
  first : Nat
  /-- The last of their code points. -/
  last : Nat
  /-- What the first byte starts from. -/
  lead : Nat
  /-- How many bytes follow. -/
  behind : Nat

/-- The widths, with the code points that are no characters left out. -/
def widths : List Width :=
  [⟨0x0, 0x7F, 0x0, 0⟩, ⟨0x80, 0x7FF, 0xC0, 1⟩, ⟨0x800, 0xD7FF, 0xE0, 2⟩,
   ⟨0xE000, 0xFFFF, 0xE0, 2⟩, ⟨0x10000, 0x10FFFF, 0xF0, 3⟩]

/-- The spans of the characters from one code point to another. -/
def spans (lo hi : Nat) : List Span :=
  widths.flatMap fun w =>
    if max lo w.first ≤ min hi w.last then
      digits w.lead w.behind (max lo w.first) (min hi w.last)
    else
      []

/-! ### Unit tests: spans -/

example : spans 0x61 0x7A = [[(0x61, 0x7A)]] := by decide

example : spans 0x7F 0x801 =
    [[(0x7F, 0x7F)], [(0xC2, 0xDF), (0x80, 0xBF)], [(0xE0, 0xE0), (0xA0, 0xA0), (0x80, 0x81)]] := by
  decide

example : (spans 0x0 0x10FFFF).length = 9 := by decide

end ChipEight.Utf8
