import ChipEight.Text.Utf8
import Mathlib.Data.List.Forall2

namespace ChipEight.Utf8

/-!
# Byte ranges — the spans of a range hold its characters

The bytes of a character are the digits of its code point in base sixty-four, each behind a mark. A
range of numbers falls apart by the first digit: the numbers that share theirs with the lower end,
those with one in between, and those that share theirs with the upper end. So the spans of a range
hold exactly the digits of its numbers, and the marks of different widths do not meet.

* `Fits`, `encode` — bytes in the ranges of a span, and numbers as bytes;
* `fits_digits_iff` — numbers with so many digits;
* `fits_spans_iff` — characters.
-/

/-- Bytes lie in the ranges of a span, one by one. -/
def Fits (span : Span) (bytes : List Nat) : Prop :=
  List.Forall₂ (fun r b => r.1 ≤ b ∧ b ≤ r.2) span bytes

/-- A number as bytes, with so many digits in base sixty-four behind the first one. -/
def encode (lead : Nat) : Nat → Nat → List Nat
  | 0, m => [lead + m]
  | n + 1, m => (lead + m / weight (n + 1)) :: encode 0x80 n (m % weight (n + 1))

/-! ### Numbers -/

theorem weight_pos (n : Nat) : 0 < weight n := by
  induction n with
  | zero => decide
  | succ n ih => exact Nat.mul_pos (by decide) ih

/-- Numbers are in the order of their first digits, and then of the rest. -/
theorem le_iff_div_mod (u x y : Nat) :
    x ≤ y ↔ x / u < y / u ∨ (x / u = y / u ∧ x % u ≤ y % u) := by
  have hx := Nat.div_add_mod x u
  have hy := Nat.div_add_mod y u
  constructor
  · intro h
    rcases Nat.lt_or_eq_of_le (Nat.div_le_div_right (c := u) h) with hlt | heq
    · exact .inl hlt
    · rw [heq] at hx
      exact .inr ⟨heq, by omega⟩
  · rintro (hlt | ⟨heq, hle⟩)
    · exact Nat.le_of_lt (Nat.lt_of_div_lt_div hlt)
    · rw [heq] at hx
      omega

theorem fits_cons {r : Nat × Nat} {span : Span} {k : Nat} {bytes : List Nat} :
    Fits (r :: span) (k :: bytes) ↔ (r.1 ≤ k ∧ k ≤ r.2) ∧ Fits span bytes :=
  List.forall₂_cons

/-- Spans with the same first range. -/
theorem exists_fits_map {r : Nat × Nat} {spans : List Span} {k : Nat} {bytes : List Nat} :
    (∃ s ∈ spans.map (r :: ·), Fits s (k :: bytes))
      ↔ (r.1 ≤ k ∧ k ≤ r.2) ∧ ∃ s ∈ spans, Fits s bytes := by
  constructor
  · rintro ⟨_, hmem, h⟩
    obtain ⟨s, hs, rfl⟩ := List.mem_map.1 hmem
    exact ⟨(fits_cons.1 h).1, s, hs, (fits_cons.1 h).2⟩
  · rintro ⟨hk, s, hs, h⟩
    exact ⟨r :: s, List.mem_map_of_mem hs, fits_cons.2 ⟨hk, h⟩⟩

/-- Spans with the same first range, if there are any. -/
theorem exists_fits_if {p : Prop} [Decidable p] {r : Nat × Nat} {spans : List Span} {k : Nat}
    {bytes : List Nat} :
    (∃ s ∈ (if p then spans.map (r :: ·) else []), Fits s (k :: bytes))
      ↔ p ∧ (r.1 ≤ k ∧ k ≤ r.2) ∧ ∃ s ∈ spans, Fits s bytes := by
  by_cases h : p
  · rw [if_pos h, exists_fits_map, and_iff_right h]
  · simp [h]

/-- The spans of a range of numbers hold its numbers. -/
theorem fits_digits_iff (lead n : Nat) {lo hi : Nat} (h : lo ≤ hi) (m : Nat) :
    (∃ s ∈ digits lead n lo hi, Fits s (encode lead n m)) ↔ lo ≤ m ∧ m ≤ hi := by
  induction n generalizing lead lo hi m with
  | zero =>
    simp [digits, encode, Fits]
  | succ n ih =>
    have hunit := weight_pos (n + 1)
    have hlo := Nat.mod_lt lo hunit
    have hhi := Nat.mod_lt hi hunit
    have hm := Nat.mod_lt m hunit
    rw [le_iff_div_mod (weight (n + 1))] at h
    rw [digits, encode, le_iff_div_mod (weight (n + 1)) lo m, le_iff_div_mod (weight (n + 1)) m hi]
    generalize lo / weight (n + 1) = first, hi / weight (n + 1) = last, m / weight (n + 1) = q at *
    generalize lo % weight (n + 1) = a, hi % weight (n + 1) = b, m % weight (n + 1) = k at *
    generalize weight (n + 1) = unit at *
    by_cases hsame : first = last
    · rw [if_pos hsame, exists_fits_map, ih _ (by omega)]
      simp only
      omega
    · -- the numbers that share the first digit of an end, and those in between
      rw [if_neg hsame]
      simp only [List.mem_append, or_and_right, exists_or, ← ite_not (a = 0),
        ← ite_not (b = unit - 1), exists_fits_if, ih 0x80 (show a ≤ unit - 1 by omega),
        ih 0x80 (Nat.zero_le (unit - 1)), ih 0x80 (Nat.zero_le b)]
      split <;> split <;> omega

/-! ### Characters -/

theorem length_of_fits {span : Span} {bytes : List Nat} (h : Fits span bytes) :
    span.length = bytes.length :=
  List.Forall₂.length_eq h

theorem length_encode (lead n m : Nat) : (encode lead n m).length = n + 1 := by
  induction n generalizing lead m with
  | zero => rfl
  | succ n ih => rw [encode, List.length_cons, ih]

/-- The bytes of a character. -/
def bytesOf (c : Char) : List Nat :=
  (String.utf8EncodeChar c).map UInt8.toNat

/-- A character has one of the widths, and its bytes are those of its code point. -/
theorem exists_width (c : Char) :
    ∃ w ∈ widths, (w.first ≤ c.toNat ∧ c.toNat ≤ w.last)
      ∧ bytesOf c = encode w.lead w.behind c.toNat := by
  have hvalid : c.toNat.isValidChar := c.valid
  rw [bytesOf, String.utf8EncodeChar, show c.val.toNat = c.toNat from rfl]
  generalize c.toNat = v at hvalid
  simp only [Nat.isValidChar] at hvalid
  split
  case isTrue h =>
    exact ⟨⟨0x0, 0x7F, 0x0, 0⟩, by simp [widths], by simp only; omega, by simp [encode]; omega⟩
  case isFalse =>
    split
    case isTrue h =>
      exact ⟨⟨0x80, 0x7FF, 0xC0, 1⟩, by simp [widths], by simp only; omega,
        by simp [encode, weight]; omega⟩
    case isFalse =>
      split
      case isTrue h =>
        by_cases hlow : v ≤ 0xD7FF
        · exact ⟨⟨0x800, 0xD7FF, 0xE0, 2⟩, by simp [widths], by simp only; omega,
            by simp [encode, weight]; omega⟩
        · exact ⟨⟨0xE000, 0xFFFF, 0xE0, 2⟩, by simp [widths], by simp only; omega,
            by simp [encode, weight]; omega⟩
      case isFalse =>
        exact ⟨⟨0x10000, 0x10FFFF, 0xF0, 3⟩, by simp [widths], by simp only; omega,
          by simp [encode, weight]; omega⟩

theorem length_of_mem_digits {lead n lo hi : Nat} {s : Span} (h : s ∈ digits lead n lo hi) :
    s.length = n + 1 := by
  induction n generalizing lead lo hi s with
  | zero =>
    obtain rfl := List.mem_singleton.1 h
    rfl
  | succ n ih =>
    have hmap : ∀ {r : Nat × Nat} {lo hi : Nat}, s ∈ (digits 0x80 n lo hi).map (r :: ·) →
        s.length = n + 2 := by
      intro r lo hi hs
      obtain ⟨t, ht, rfl⟩ := List.mem_map.1 hs
      rw [List.length_cons, ih ht]
    have hif : ∀ {p : Prop} [Decidable p] {spans : List Span},
        s ∈ (if p then spans else []) → s ∈ spans := by
      intro p _ spans hs
      split at hs
      · exact hs
      · cases hs
    rw [digits] at h
    simp only [← ite_not (lo % weight (n + 1) = 0),
      ← ite_not (hi % weight (n + 1) = weight (n + 1) - 1)] at h
    by_cases hsame : lo / weight (n + 1) = hi / weight (n + 1)
    · rw [if_pos hsame] at h
      exact hmap h
    · rw [if_neg hsame] at h
      simp only [List.mem_append] at h
      rcases h with (h | h) | h
      · exact hmap (hif h)
      · exact hmap (hif h)
      · exact hmap (hif h)

/-- **The spans of a range of code points hold its characters.** -/
theorem fits_spans_iff (lo hi : Nat) (c : Char) :
    (∃ s ∈ spans lo hi, Fits s (bytesOf c)) ↔ lo ≤ c.toNat ∧ c.toNat ≤ hi := by
  obtain ⟨w, hw, hin, hbytes⟩ := exists_width c
  constructor
  · rintro ⟨s, hs, hfits⟩
    obtain ⟨v, hv, hs⟩ := List.mem_flatMap.1 hs
    split at hs
    case isTrue hle =>
      -- spans of another width are longer or shorter, and those of one length have one mark
      have hbehind : v.behind = w.behind := by
        have hlength := length_of_fits hfits
        rw [length_of_mem_digits hs, hbytes, length_encode] at hlength
        omega
      have hlead : v.lead = w.lead := by
        have hall : ∀ v ∈ widths, ∀ w ∈ widths, v.behind = w.behind → v.lead = w.lead := by decide
        exact hall v hv w hw hbehind
      rw [hbytes, ← hbehind, ← hlead] at hfits
      have hrange := (fits_digits_iff v.lead v.behind hle c.toNat).1 ⟨s, hs, hfits⟩
      omega
    case isFalse => cases hs
  · intro h
    have hle : max lo w.first ≤ min hi w.last := by omega
    obtain ⟨s, hs, hfits⟩ := (fits_digits_iff w.lead w.behind hle c.toNat).2 (by omega)
    exact ⟨s, List.mem_flatMap.2 ⟨w, hw, by rwa [if_pos hle]⟩, hbytes ▸ hfits⟩

end ChipEight.Utf8
