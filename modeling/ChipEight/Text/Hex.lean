namespace ChipEight.Hex

/-!
# Hexadecimal text — upper-case digits with a least width

Every number that this library prints in base sixteen goes through this module.

* `digit`, `digits` — the upper-case digits of a number, most significant first, no leading zero;
* `digitValue?` — the value of a digit, read in either case;
* `padded` — the digits filled up with zeros to a least width;
* `text`, `marked`, `aligned` — the three spellings in use: plain, after `0x`, right-aligned;
* `value`, `value_padded` — the number that digits spell, and that it is the number printed;
* `isSome_of_mem_padded` — nothing but digits is printed;
* `padded_one`, `padded_succ` — a text digit by digit.

A width is a least width: a number that needs more digits gets them.
-/

/-- The upper-case digit of a number below sixteen. -/
def digit (n : Nat) : Char :=
  Char.ofNat (if n < 10 then 48 + n else 55 + n)

/-- The value of a character as a digit, in either case. -/
def digitValue? (c : Char) : Option Nat :=
  if '0' ≤ c ∧ c ≤ '9' then
    some (c.toNat - 48)
  else if 'a' ≤ c ∧ c ≤ 'f' then
    some (c.toNat - 87)
  else if 'A' ≤ c ∧ c ≤ 'F' then
    some (c.toNat - 55)
  else
    none

/-- The digits of `n` in base sixteen, most significant first; zero has one digit. -/
def digits (n : Nat) : List Char :=
  if n < 16 then [digit n] else digits (n / 16) ++ [digit (n % 16)]

/-- The digits of `n`, with zeros in front up to `width` characters. -/
def padded (width n : Nat) : List Char :=
  List.replicate (width - (digits n).length) '0' ++ digits n

/-- The digits of `n` in at least `width` characters. -/
def text (width n : Nat) : String :=
  String.ofList (padded width n)

/-- The digits of `n` in at least `width` characters, after the mark `0x`. -/
def marked (width n : Nat) : String :=
  "0x" ++ text width n

/-- The digits of `n` with blanks in front up to `width` characters. -/
def aligned (width n : Nat) : String :=
  String.ofList (List.replicate (width - (digits n).length) ' ' ++ digits n)

/-! ### Characters of a text -/

/-- A digit reads back as its value. -/
theorem digitValue?_digit {n : Nat} (h : n < 16) : digitValue? (digit n) = some n := by
  have all : ∀ n < 16, digitValue? (digit n) = some n := by decide
  exact all n h

@[simp] theorem toList_text (width n : Nat) : (text width n).toList = padded width n := by
  simp [text]

@[simp] theorem toList_marked (width n : Nat) :
    (marked width n).toList = '0' :: 'x' :: padded width n := by
  simp [marked]

theorem digits_of_lt {n : Nat} (h : n < 16) : digits n = [digit n] := by
  rw [digits, if_pos h]

theorem digits_of_le {n : Nat} (h : 16 ≤ n) : digits n = digits (n / 16) ++ [digit (n % 16)] := by
  rw [digits, if_neg (by omega)]

theorem digits_ne_nil (n : Nat) : digits n ≠ [] := by
  rw [digits]; split <;> simp

theorem padded_one {n : Nat} (h : n < 16) : padded 1 n = [digit n] := by
  rw [padded, digits_of_lt h]
  rfl

/-- The last digit of a number stands after the digits of its quotient. -/
theorem padded_succ {width : Nat} (hw : 0 < width) (n : Nat) :
    padded (width + 1) n = padded width (n / 16) ++ [digit (n % 16)] := by
  obtain ⟨w, rfl⟩ : ∃ w, width = w + 1 := ⟨width - 1, by omega⟩
  by_cases h : n < 16
  · rw [padded, padded, digits_of_lt h, Nat.div_eq_of_lt h, digits_of_lt (by decide),
      Nat.mod_eq_of_lt h]
    show List.replicate (w + 1) '0' ++ [digit n] = List.replicate w '0' ++ ['0'] ++ [digit n]
    rw [List.replicate_succ']
  · rw [padded, padded, digits_of_le (Nat.le_of_not_lt h), List.length_append,
      List.length_singleton, Nat.add_sub_add_right, List.append_assoc]

/-! ### Reading digits back -/

/-- The number that digits spell, most significant first. -/
def value (cs : List Char) : Nat :=
  cs.foldl (fun n c => n * 16 + (digitValue? c).getD 0) 0

theorem value_concat (cs : List Char) (c : Char) :
    value (cs ++ [c]) = value cs * 16 + (digitValue? c).getD 0 := by
  rw [value, List.foldl_append]
  rfl

/-- Zeros in front change nothing. -/
theorem value_replicate_append (k : Nat) (cs : List Char) :
    value (List.replicate k '0' ++ cs) = value cs := by
  induction k with
  | zero => rfl
  | succ k ih => exact ih

theorem value_digits (n : Nat) : value (digits n) = n := by
  induction n using digits.induct with
  | case1 n h => rw [digits_of_lt h, value]; simp [digitValue?_digit h]
  | case2 n h ih =>
    rw [digits_of_le (Nat.le_of_not_lt h), value_concat, ih,
      digitValue?_digit (Nat.mod_lt n (by decide)), Option.getD_some]
    exact Nat.div_add_mod' n 16

/-- Every character of the digits of a number is a digit. -/
theorem isSome_of_mem_digits {n : Nat} {c : Char} (h : c ∈ digits n) :
    (digitValue? c).isSome = true := by
  induction n using digits.induct with
  | case1 n hn =>
    rw [digits_of_lt hn, List.mem_singleton] at h
    rw [h, digitValue?_digit hn, Option.isSome_some]
  | case2 n hn ih =>
    rw [digits_of_le (Nat.le_of_not_lt hn), List.mem_append, List.mem_singleton] at h
    rcases h with h | rfl
    · exact ih h
    · rw [digitValue?_digit (Nat.mod_lt n (by decide)), Option.isSome_some]

theorem isSome_of_mem_padded {width n : Nat} {c : Char} (h : c ∈ padded width n) :
    (digitValue? c).isSome = true := by
  rcases List.mem_append.1 h with h | h
  · rw [List.eq_of_mem_replicate h]
    rfl
  · exact isSome_of_mem_digits h

/-- The digits of a number read back as the number, whatever the width. -/
theorem value_padded (width n : Nat) : value (padded width n) = n := by
  rw [padded, value_replicate_append, value_digits]

end ChipEight.Hex
