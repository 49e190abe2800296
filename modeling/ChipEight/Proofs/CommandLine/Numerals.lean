import ChipEight.CommandLine.Numeral
import Mathlib.Data.Nat.Digits.Defs
import Mathlib.Tactic.Ring

namespace ChipEight.CommandLine

/-!
# Numerals — their grammar

A numeral spells a number by its digits, the first of which counts most. The reader stops at the
first character that settles the result, so what it reports depends on the lead of a text up to the
first character that is no digit: a lead above the limit is too large, whatever comes after it, and
otherwise the character is invalid.

* `Denotes`, `digitValue?_eq_some_iff` — the characters of a digit, in either case;
* `Spells` — the number that digits spell;
* `readDigits_append`, `readDigits_tooLarge` — digits within the limit, and digits past it;
* `exists_lead` — the digits in front of a text;
* `NumeralReading`, `readNumeral_eq_iff` — the grammar, and that the reader follows it.
-/

/-! ### Digits -/

/-- The character is the digit of value `d` in a base, in upper or in lower case. -/
def Denotes (radix : Nat) (c : Char) (d : Nat) : Prop :=
  d < radix ∧ (c = Hex.digit d ∨ c = (Hex.digit d).toLower)

/-- The character is a digit of a base. -/
def IsDigit (radix : Nat) (c : Char) : Prop :=
  ∃ d, Denotes radix c d

variable {radix limit v n : Nat} {c : Char} {d : Nat} {cs lead rest : List Char} {ds : List Nat}

theorem toNat_lt_of_hexValue (h : Hex.digitValue? c = some d) : c.toNat < 128 := by
  have hbelow : ∀ b : Char, b.toNat < 128 → c ≤ b → c.toNat < 128 :=
    fun b hb hle => Nat.lt_of_le_of_lt hle hb
  unfold Hex.digitValue? at h
  split at h
  case isTrue hc => exact hbelow '9' (by decide) hc.2
  case isFalse =>
    split at h
    case isTrue hc => exact hbelow 'f' (by decide) hc.2
    case isFalse =>
      split at h
      case isTrue hc => exact hbelow 'F' (by decide) hc.2
      case isFalse => cases h

/-- All digits are among the first characters, where they are gone through one by one. -/
theorem digit_of_hexValue (h : Hex.digitValue? c = some d) :
    c = Hex.digit d ∨ c = (Hex.digit d).toLower := by
  have table : ∀ n < 128, ∀ d ∈ Hex.digitValue? (Char.ofNat n),
      Char.ofNat n = Hex.digit d ∨ Char.ofNat n = (Hex.digit d).toLower := by decide
  have hfound := table c.toNat (toNat_lt_of_hexValue h) d
  rw [Char.ofNat_toNat] at hfound
  exact hfound h

theorem digitValue?_eq_some_iff (hradix : radix ≤ 16) :
    digitValue? radix c = some d ↔ Denotes radix c d := by
  have table : ∀ d < 16, Hex.digitValue? (Hex.digit d).toLower = some d := by decide
  rw [digitValue?, Option.filter_eq_some_iff, decide_eq_true_iff, Denotes]
  constructor
  · rintro ⟨h, hlt⟩
    exact ⟨hlt, digit_of_hexValue h⟩
  · rintro ⟨hlt, rfl | rfl⟩
    · exact ⟨Hex.digitValue?_digit (by omega), hlt⟩
    · exact ⟨table d (by omega), hlt⟩

theorem digitValue?_eq_none (hradix : radix ≤ 16) (h : ¬ IsDigit radix c) :
    digitValue? radix c = none := by
  rw [Option.eq_none_iff_forall_ne_some]
  intro d hd
  exact h ⟨d, (digitValue?_eq_some_iff hradix).1 hd⟩

/-! ### Numbers -/

/-- The digits spell a number, the last of them the units. -/
def Spells (radix : Nat) (cs : List Char) (n : Nat) : Prop :=
  ∃ ds, List.Forall₂ (Denotes radix) cs ds ∧ Nat.ofDigits radix ds.reverse = n

/-- No digits spell nothing but zero. -/
theorem Spells.ne_nil (h : Spells radix cs n) (hn : 0 < n) : cs ≠ [] := by
  rintro rfl
  obtain ⟨ds, hds, rfl⟩ := h
  cases hds
  exact Nat.lt_irrefl 0 hn

/-- The value of digits after a value. -/
def valueAfter (radix v : Nat) (ds : List Nat) : Nat :=
  v * radix ^ ds.length + Nat.ofDigits radix ds.reverse

theorem valueAfter_nil (radix v : Nat) : valueAfter radix v [] = v := by
  simp [valueAfter]

/-- One digit moves the value up by one place. -/
theorem valueAfter_cons (radix v d : Nat) (ds : List Nat) :
    valueAfter radix v (d :: ds) = valueAfter radix (v * radix + d) ds := by
  rw [valueAfter, valueAfter, List.reverse_cons, Nat.ofDigits_append, Nat.ofDigits_singleton,
    List.length_reverse, List.length_cons]
  ring

theorem valueAfter_zero (radix : Nat) (ds : List Nat) :
    valueAfter radix 0 ds = Nat.ofDigits radix ds.reverse := by
  rw [valueAfter, Nat.zero_mul, Nat.zero_add]

/-- Digits never make a value smaller. -/
theorem le_valueAfter (hradix : 0 < radix) (v : Nat) (ds : List Nat) :
    v ≤ valueAfter radix v ds :=
  calc v = v * 1 := (Nat.mul_one v).symm
    _ ≤ v * radix ^ ds.length := Nat.mul_le_mul_left v (Nat.pow_pos hradix)
    _ ≤ valueAfter radix v ds := Nat.le_add_right _ _

/-! ### The reader -/

theorem readDigits_cons (hradix : radix ≤ 16) (hc : Denotes radix c d) :
    readDigits radix limit v (c :: rest)
      = if limit < v * radix + d then .error .tooLarge
        else readDigits radix limit (v * radix + d) rest := by
  rw [readDigits, (digitValue?_eq_some_iff hradix).2 hc]

/-- Digits within the limit are read through. -/
theorem readDigits_append (hpos : 0 < radix) (hradix : radix ≤ 16)
    (h : List.Forall₂ (Denotes radix) lead ds) (hle : valueAfter radix v ds ≤ limit)
    (rest : List Char) :
    readDigits radix limit v (lead ++ rest)
      = readDigits radix limit (valueAfter radix v ds) rest := by
  induction h generalizing v with
  | nil => rw [valueAfter_nil, List.nil_append]
  | @cons c d lead ds hc _ ih =>
    rw [valueAfter_cons] at hle ⊢
    -- the value only grows: if it ends within the limit, it is within the limit at each digit
    have hnext := Nat.le_trans (le_valueAfter hpos _ ds) hle
    rw [List.cons_append, readDigits_cons hradix hc, if_neg (Nat.not_lt.2 hnext), ih hle]

/-- Digits past the limit end the reading, whatever comes after them. -/
theorem readDigits_tooLarge (hradix : radix ≤ 16) (h : List.Forall₂ (Denotes radix) lead ds)
    (hv : v ≤ limit) (hlt : limit < valueAfter radix v ds) (rest : List Char) :
    readDigits radix limit v (lead ++ rest) = .error .tooLarge := by
  induction h generalizing v with
  | nil => exact absurd hlt (Nat.not_lt.2 (by rwa [valueAfter_nil]))
  | @cons c d lead ds hc _ ih =>
    rw [valueAfter_cons] at hlt
    rw [List.cons_append, readDigits_cons hradix hc]
    -- the limit is passed at this digit or at a later one
    split
    case isTrue => rfl
    case isFalse hnext => exact ih (Nat.not_lt.1 hnext) hlt

/-- Every text is a lead of digits and a rest that starts with none. -/
theorem exists_lead (radix : Nat) (cs : List Char) :
    ∃ lead rest n, cs = lead ++ rest ∧ Spells radix lead n
      ∧ ∀ c ∈ rest.head?, ¬ IsDigit radix c := by
  induction cs with
  | nil => exact ⟨[], [], 0, rfl, ⟨[], .nil, rfl⟩, by simp⟩
  | cons c cs ih =>
    by_cases hc : IsDigit radix c
    · obtain ⟨d, hd⟩ := hc
      obtain ⟨lead, rest, _, rfl, ⟨ds, hds, -⟩, hrest⟩ := ih
      exact ⟨c :: lead, rest, _, rfl, ⟨d :: ds, .cons hd hds, rfl⟩, hrest⟩
    · exact ⟨[], c :: cs, 0, rfl, ⟨[], .nil, rfl⟩, by simpa using hc⟩

/-! ### The grammar -/

/-- The text without a plus sign in front, if anything follows the sign. -/
def unsigned (body : List Char) : List Char :=
  if 1 < body.length ∧ body.head? = some '+' then body.tail else body

/-- The digits up to the first other character spell a number above the limit. -/
def PassesLimit (radix limit : Nat) (cs : List Char) : Prop :=
  ∃ lead rest n, cs = lead ++ rest ∧ (∀ c ∈ rest.head?, ¬ IsDigit radix c)
    ∧ Spells radix lead n ∧ limit < n

/-- The digits up to some other character spell a number within the limit. -/
def HasStranger (radix limit : Nat) (cs : List Char) : Prop :=
  ∃ lead c rest n, cs = lead ++ c :: rest ∧ ¬ IsDigit radix c ∧ Spells radix lead n ∧ n ≤ limit

/-- What a text says as a numeral. -/
inductive NumeralReading (radix limit : Nat) (body : List Char) : Except NumeralError Nat → Prop
  /-- There is no digit at all. -/
  | empty (h : body = []) : NumeralReading radix limit body (.error .empty)
  /-- There are digits only, and they stay within the limit. -/
  | number {n : Nat} (hne : body ≠ []) (h : Spells radix (unsigned body) n) (hle : n ≤ limit) :
    NumeralReading radix limit body (.ok n)
  /-- The digits pass the limit before anything else comes. -/
  | tooLarge (h : PassesLimit radix limit (unsigned body)) :
    NumeralReading radix limit body (.error .tooLarge)
  /-- Something else comes before the digits pass the limit. -/
  | invalidDigit (h : HasStranger radix limit (unsigned body)) :
    NumeralReading radix limit body (.error .invalidDigit)

/-- A sign alone stays. -/
theorem unsigned_eq_nil_iff {body : List Char} : unsigned body = [] ↔ body = [] := by
  unfold unsigned
  split
  case isTrue h =>
    rw [← List.length_eq_zero_iff, ← List.length_eq_zero_iff, List.length_tail]
    omega
  case isFalse => rfl

theorem PassesLimit.ne_nil (h : PassesLimit radix limit cs) : cs ≠ [] := by
  obtain ⟨lead, rest, n, rfl, -, hlead, hlt⟩ := h
  exact List.append_ne_nil_of_left_ne_nil (hlead.ne_nil (Nat.zero_lt_of_lt hlt)) rest

theorem HasStranger.ne_nil (h : HasStranger radix limit cs) : cs ≠ [] := by
  obtain ⟨lead, c, rest, n, rfl, -⟩ := h
  exact List.append_ne_nil_of_right_ne_nil lead (List.cons_ne_nil c rest)

/-- The sign is all that is special about the front of a numeral. -/
theorem readNumeral_of_ne_nil (radix limit : Nat) {body : List Char} (hne : body ≠ []) :
    readNumeral radix limit body = readDigits radix limit 0 (unsigned body) := by
  unfold readNumeral
  split
  case h_1 => exact absurd rfl hne
  case h_2 c rest => rfl
  case h_3 hsign =>
    have hnot : ¬ (1 < body.length ∧ body.head? = some '+') := by
      rintro ⟨hlen, hhead⟩
      obtain ⟨rest, rfl⟩ := List.head?_eq_some_iff.1 hhead
      cases rest with
      | nil => exact absurd hlen (by decide)
      | cons c rest => exact hsign c rest rfl
    rw [unsigned, if_neg hnot]

theorem NumeralReading.sound {body : List Char} {r : Except NumeralError Nat} (hpos : 0 < radix)
    (hradix : radix ≤ 16) (h : NumeralReading radix limit body r) :
    readNumeral radix limit body = r := by
  cases h with
  | empty h => rw [h, readNumeral]
  | number hne h hle =>
    obtain ⟨ds, hds, rfl⟩ := h
    rw [← valueAfter_zero] at hle ⊢
    have hread := readDigits_append hpos hradix hds hle []
    rwa [List.append_nil, readDigits, ← readNumeral_of_ne_nil radix limit hne] at hread
  | tooLarge h =>
    rw [readNumeral_of_ne_nil radix limit (mt unsigned_eq_nil_iff.2 h.ne_nil)]
    obtain ⟨lead, rest, n, hcs, -, ⟨ds, hds, rfl⟩, hlt⟩ := h
    rw [← valueAfter_zero] at hlt
    rw [hcs, readDigits_tooLarge hradix hds (Nat.zero_le limit) hlt]
  | invalidDigit h =>
    rw [readNumeral_of_ne_nil radix limit (mt unsigned_eq_nil_iff.2 h.ne_nil)]
    obtain ⟨lead, c, rest, n, hcs, hc, ⟨ds, hds, rfl⟩, hle⟩ := h
    rw [← valueAfter_zero] at hle
    rw [hcs, readDigits_append hpos hradix hds hle, readDigits, digitValue?_eq_none hradix hc]

/-- Every text says something: what it says depends on the digits in front. -/
theorem NumeralReading.total (radix limit : Nat) (body : List Char) :
    ∃ r, NumeralReading radix limit body r := by
  by_cases hne : body = []
  · exact ⟨_, .empty hne⟩
  · obtain ⟨lead, rest, n, hcs, hlead, hrest⟩ := exists_lead radix (unsigned body)
    by_cases hle : n ≤ limit
    · cases rest with
      | nil =>
        rw [List.append_nil] at hcs
        exact ⟨_, .number hne (hcs ▸ hlead) hle⟩
      | cons c rest => exact ⟨_, .invalidDigit ⟨lead, c, rest, n, hcs, hrest c rfl, hlead, hle⟩⟩
    · exact ⟨_, .tooLarge ⟨lead, rest, n, hcs, hrest, hlead, Nat.lt_of_not_le hle⟩⟩

/-- The reader of numerals is its grammar. -/
theorem readNumeral_eq_iff {body : List Char} {r : Except NumeralError Nat} (hpos : 0 < radix)
    (hradix : radix ≤ 16) :
    readNumeral radix limit body = r ↔ NumeralReading radix limit body r := by
  constructor
  · rintro rfl
    obtain ⟨r, h⟩ := NumeralReading.total radix limit body
    rwa [h.sound hpos hradix]
  · exact NumeralReading.sound hpos hradix

end ChipEight.CommandLine
