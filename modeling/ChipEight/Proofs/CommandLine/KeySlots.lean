import ChipEight.CommandLine.KeySlot
import ChipEight.Proofs.CommandLine.Numerals

namespace ChipEight.CommandLine

/-!
# Key slots — the grammar of the keys that a user names

A text is a mark, which decides about the base, and a numeral of at most a byte. Not every byte is a
key, so there is one outcome more than for a numeral.

* `KeySlot.IsMarked`, `KeySlot.radix`, `KeySlot.body` — the mark;
* `KeySlot.digits` — what stands after the mark and the sign;
* `KeySlot.Reading` — the outcomes, each with its condition and its text;
* `readKeySlot_grammar` — a text is read as its outcome says, and no other way.
-/

namespace KeySlot

variable {cs : List Char} {r : Except String Nibble}

/-- The text begins with the mark of base sixteen. -/
def IsMarked (cs : List Char) : Prop :=
  "0x".toList <+: cs ∨ "0X".toList <+: cs

instance (cs : List Char) : Decidable (IsMarked cs) :=
  inferInstanceAs (Decidable ("0x".toList <+: cs ∨ "0X".toList <+: cs))

/-- The base of a text. -/
def radix (cs : List Char) : Nat :=
  if IsMarked cs then 16 else 10

/-- The text after the mark of its base. -/
def body (cs : List Char) : List Char :=
  if IsMarked cs then cs.drop 2 else cs

/-- The text after the mark of its base and a plus sign. -/
def digits (cs : List Char) : List Char :=
  unsigned (body cs)

theorem radix_pos (cs : List Char) : 0 < radix cs := by
  unfold radix
  split <;> decide

theorem radix_le (cs : List Char) : radix cs ≤ 16 := by
  unfold radix
  split <;> decide

/-- A text is split where its mark ends. -/
theorem splitRadix_eq (cs : List Char) : splitRadix cs = (radix cs, body cs) := by
  unfold splitRadix
  split
  case h_1 rest => simp [radix, body, IsMarked]
  case h_2 rest => simp [radix, body, IsMarked]
  case h_3 hlower hupper =>
    have hnot : ¬ IsMarked cs := by
      rintro (⟨rest, rfl⟩ | ⟨rest, rfl⟩)
      · exact hlower rest rfl
      · exact hupper rest rfl
    rw [radix, body, if_neg hnot, if_neg hnot]

/-- What a text says as the name of a key. -/
inductive Reading (cs : List Char) : Except String Nibble → Prop
  /-- There are digits only, and they spell the number of a key. -/
  | slot {k : Nibble} (hne : digits cs ≠ []) (h : Spells (radix cs) (digits cs) k.val) :
    Reading cs (.ok k)
  /-- Nothing stands after the mark. -/
  | empty (h : body cs = []) : Reading cs (.error "cannot parse integer from empty string")
  /-- The digits pass the greatest byte before anything else comes. -/
  | tooLarge (h : PassesLimit (radix cs) 255 (digits cs)) :
    Reading cs (.error "number too large to fit in target type")
  /-- Something else comes before the digits pass the greatest byte. -/
  | invalidDigit (h : HasStranger (radix cs) 255 (digits cs)) :
    Reading cs (.error "invalid digit found in string")
  /-- There are digits only, and they spell a byte that is no key. -/
  | noSlot {n : Nat} (h : Spells (radix cs) (digits cs) n) (hlow : 16 ≤ n) (hhigh : n ≤ 255) :
    Reading cs (.error ("0x" ++ String.ofList [Hex.digit (n / 16), Hex.digit (n % 16)]
      ++ " is not a keypad slot (0x0-0xF)"))

/-! ### The reader -/

theorem readKeySlot_of_ok {text : String} {n : Nat}
    (h : NumeralReading (radix text.toList) 255 (body text.toList) (.ok n)) :
    readKeySlot text = if hn : n < 16 then .ok ⟨n, hn⟩ else .error (.noSlot n) := by
  have hread := h.sound (radix_pos _) (radix_le _)
  simp only [readKeySlot, splitRadix_eq, hread]

theorem readKeySlot_of_error {text : String} {e : NumeralError}
    (h : NumeralReading (radix text.toList) 255 (body text.toList) (.error e)) :
    readKeySlot text = .error (.numeral e) := by
  have hread := h.sound (radix_pos _) (radix_le _)
  simp only [readKeySlot, splitRadix_eq, hread]

/-- A byte that is no key has two digits. -/
theorem message_noSlot {n : Nat} (hlow : 16 ≤ n) (hhigh : n ≤ 255) :
    (KeySlotError.noSlot n).message
      = "0x" ++ String.ofList [Hex.digit (n / 16), Hex.digit (n % 16)]
        ++ " is not a keypad slot (0x0-0xF)" := by
  have hdigits : Hex.digits n = [Hex.digit (n / 16), Hex.digit (n % 16)] := by
    rw [Hex.digits_of_le hlow, Hex.digits_of_lt (by omega), List.singleton_append]
  have htext : Hex.text 1 n = String.ofList [Hex.digit (n / 16), Hex.digit (n % 16)] := by
    rw [Hex.text, Hex.padded, hdigits]
    rfl
  rw [KeySlotError.message, Hex.marked, htext]

theorem Reading.sound {text : String} (h : Reading text.toList r) :
    (readKeySlot text).mapError KeySlotError.message = r := by
  cases h with
  | @slot k hne h =>
    have hbody := mt unsigned_eq_nil_iff.2 hne
    rw [readKeySlot_of_ok (.number hbody h (by omega)), dif_pos k.isLt]
    rfl
  | empty h =>
    rw [readKeySlot_of_error (.empty h)]
    rfl
  | tooLarge h =>
    rw [readKeySlot_of_error (.tooLarge h)]
    rfl
  | invalidDigit h =>
    rw [readKeySlot_of_error (.invalidDigit h)]
    rfl
  | @noSlot n h hlow hhigh =>
    have hbody := mt unsigned_eq_nil_iff.2 (h.ne_nil (by omega))
    rw [readKeySlot_of_ok (.number hbody h hhigh), dif_neg (by omega), ← message_noSlot hlow hhigh]
    rfl

/-- Every text says something: a numeral of at most a byte is a key or not, and what keeps a text
from being one is reported. -/
theorem Reading.total (cs : List Char) : ∃ r, Reading cs r := by
  obtain ⟨_, h⟩ := NumeralReading.total (radix cs) 255 (body cs)
  cases h with
  | empty h => exact ⟨_, .empty h⟩
  | @number n hne h hle =>
    by_cases hn : n < 16
    · exact ⟨_, .slot (k := ⟨n, hn⟩) (mt unsigned_eq_nil_iff.1 hne) h⟩
    · exact ⟨_, .noSlot h (Nat.le_of_not_lt hn) hle⟩
  | tooLarge h => exact ⟨_, .tooLarge h⟩
  | invalidDigit h => exact ⟨_, .invalidDigit h⟩

end KeySlot

/-- **A key is read as the grammar says, and no other way**: as a key exactly for the spellings of
the numbers of keys, and otherwise with the text of the first thing that is wrong from the left. -/
theorem readKeySlot_grammar (text : String) (r : Except String Nibble) :
    (readKeySlot text).mapError KeySlotError.message = r ↔ KeySlot.Reading text.toList r := by
  constructor
  · rintro rfl
    obtain ⟨r, h⟩ := KeySlot.Reading.total text.toList
    rwa [h.sound]
  · exact KeySlot.Reading.sound

end ChipEight.CommandLine
