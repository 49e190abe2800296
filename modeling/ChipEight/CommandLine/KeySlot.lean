import ChipEight.CommandLine.Numeral
import ChipEight.Nibble
import ChipEight.Text.Hex

namespace ChipEight.CommandLine

/-!
# Key slots — keys named by the user

A key is named by a numeral of at most a byte, hexadecimal after `0x` or `0X` and decimal otherwise.

* `KeySlotError` — why a text names no key, with its text in `KeySlotError.message`;
* `splitRadix` — the base of a text and what is left of it;
* `readKeySlot` — the key that a text names.
-/

/-- Why a text names no key. -/
inductive KeySlotError where
  /-- The text is no numeral of at most a byte. -/
  | numeral (e : NumeralError)
  /-- The value is above fifteen. -/
  | noSlot (value : Nat)
deriving DecidableEq, Repr

/-- The text an unreadable key is reported with. -/
def KeySlotError.message : KeySlotError → String
  | .numeral e => e.message
  | .noSlot value => Hex.marked 1 value ++ " is not a keypad slot (0x0-0xF)"

/-- The base that a text is written in, and the text without the mark of the base. -/
def splitRadix : List Char → Nat × List Char
  | '0' :: 'x' :: rest => (16, rest)
  | '0' :: 'X' :: rest => (16, rest)
  | cs => (10, cs)

/-- The key that a text names. -/
def readKeySlot (text : String) : Except KeySlotError Nibble :=
  let (radix, body) := splitRadix text.toList
  match readNumeral radix 255 body with
  | .error e => .error (.numeral e)
  | .ok value => if h : value < 16 then .ok ⟨value, h⟩ else .error (.noSlot value)

/-! ### Unit tests: the two bases, and which error comes first -/

example : readKeySlot "0xF" = .ok 0xF := rfl

example : readKeySlot "0x+7" = .ok 7 := rfl

example : readKeySlot "16" = .error (.noSlot 16) := rfl

-- The value passes the limit before the last character is looked at.
example : readKeySlot "999x" = .error (.numeral .tooLarge) := rfl

-- The sign is no digit, and nothing follows it.
example : readKeySlot "+" = .error (.numeral .invalidDigit) := rfl

end ChipEight.CommandLine
