namespace ChipEight.Blank

/-!
# Blanks — characters that only make room

The blanks are the characters with the Unicode property White_Space; there are twenty-five of them,
unchanged since version 6.3 of the standard.

* `ranges` — their code points;
* `holds` — whether a character is a blank;
* `skip`, `trim` — a text without the blanks in front, and without those at both ends.
-/

/-- The code points of the blanks as closed ranges, ascending and apart. -/
def ranges : List (Nat × Nat) :=
  [(0x09, 0x0D), (0x20, 0x20), (0x85, 0x85), (0xA0, 0xA0), (0x1680, 0x1680), (0x2000, 0x200A),
   (0x2028, 0x2029), (0x202F, 0x202F), (0x205F, 0x205F), (0x3000, 0x3000)]

/-- Whether a character is a blank. -/
def holds (c : Char) : Bool :=
  ranges.any fun r => decide (r.1 ≤ c.toNat ∧ c.toNat ≤ r.2)

/-- A text without the blanks in front. -/
def skip (text : List Char) : List Char :=
  text.dropWhile holds

/-- A text without the blanks at its ends. -/
def trim (text : List Char) : List Char :=
  (skip (skip text).reverse).reverse

/-! ### The table -/

example : (ranges.map fun r => r.2 + 1 - r.1).sum = 25 := by decide

example : ranges.Pairwise (fun r s => r.2 + 1 < s.1) ∧ ∀ r ∈ ranges, r.1 ≤ r.2 := by decide

/-! ### Unit tests: wide blanks, and a blank inside a text -/

example : trim [' ', '\u3000', 'a', ' ', 'b', '\u2003', '\t'] = ['a', ' ', 'b'] := by decide

-- A joiner without width is no blank.
example : trim ['\u200b', 'a'] = ['\u200b', 'a'] := by decide

end ChipEight.Blank
