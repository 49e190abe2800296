import ChipEight.Text.Hex

namespace ChipEight.CommandLine

/-!
# Numerals — numbers written by the user

A numeral is read from left to right: the first character that is no digit or takes the value past
the limit decides about the error. One plus sign may stand in front of the digits.

* `NumeralError` — why a text is no numeral, with its text in `NumeralError.message`;
* `digitValue?` — the value of a digit in a base up to sixteen, in either case;
* `readDigits` — digits read after a value;
* `readNumeral` — the whole numeral.
-/

/-- Why a text is no numeral. -/
inductive NumeralError where
  /-- The text is empty. -/
  | empty
  /-- A character is no digit. -/
  | invalidDigit
  /-- The value is past the limit. -/
  | tooLarge
deriving DecidableEq, Repr

/-- The text an unreadable numeral is reported with. -/
def NumeralError.message : NumeralError → String
  | .empty => "cannot parse integer from empty string"
  | .invalidDigit => "invalid digit found in string"
  | .tooLarge => "number too large to fit in target type"

/-- The value of a character as a digit in a base. -/
def digitValue? (radix : Nat) (c : Char) : Option Nat :=
  (Hex.digitValue? c).filter (· < radix)

/-- The value of digits that follow a value. -/
def readDigits (radix limit value : Nat) : List Char → Except NumeralError Nat
  | [] => .ok value
  | c :: rest =>
    match digitValue? radix c with
    | none => .error .invalidDigit
    | some d =>
      if limit < value * radix + d then
        .error .tooLarge
      else
        readDigits radix limit (value * radix + d) rest

/-- The value of a numeral. A plus sign counts as a sign if something follows it. -/
def readNumeral (radix limit : Nat) : List Char → Except NumeralError Nat
  | [] => .error .empty
  | '+' :: c :: rest => readDigits radix limit 0 (c :: rest)
  | cs => readDigits radix limit 0 cs

end ChipEight.CommandLine
