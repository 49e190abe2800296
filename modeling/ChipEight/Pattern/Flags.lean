import ChipEight.Pattern.Basic
import ChipEight.Text.Blank

namespace ChipEight.Pattern

/-!
# Flags — how the text of a pattern is read

A flag is in force up to the end of the group that it is set in. Beyond ASCII there are neither
cases nor classes of characters: what needs them is refused as long as a pattern is wide, and as
soon as it is not, a set may not reach beyond ASCII.

* `Flags` — the flags;
* `Flags.char?`, `Flags.item?`, `Flags.complement?`, `Flags.class?`, `Flags.anyChar?` — what
  characters and sets stand for, unless they are refused;
* `Flags.span`, `Flags.skip`, `Flags.peek` — a text without the blanks and comments in it;
* `Flags.turn`, `Flags.read` — flags set one by one, and as written in front of a group.
-/

/-- How the text of a pattern is read. -/
structure Flags where
  /-- A letter stands for both of its cases. -/
  anyCase : Bool
  /-- The ends of lines are the ends of the text no more. -/
  multiLine : Bool
  /-- The dot stands for line ends too. -/
  dotAll : Bool
  /-- A carriage return belongs to a line end. -/
  carriageReturn : Bool
  /-- Repetitions are sparing, and those with a mark are not. -/
  sparing : Bool
  /-- Characters are more than ASCII. -/
  wide : Bool
  /-- Blanks and comments between the parts mean nothing. -/
  spaced : Bool
deriving DecidableEq, Repr

namespace Flags

/-- The flags that a text starts with. -/
def plain : Flags where
  anyCase := false
  multiLine := false
  dotAll := false
  carriageReturn := false
  sparing := false
  wide := true
  spaced := false

/-! ### Characters and sets -/

/-- The pattern of a character. -/
def char? (f : Flags) (c : Char) : Option Pattern :=
  if !f.anyCase then
    some (text [c])
  else if f.wide then
    none
  else
    some (ofSet (CharSet.single c).anyCase f.wide)

/-- The set that the characters of a set in brackets stand for. -/
def item? (f : Flags) (s : CharSet) : Option CharSet :=
  if f.wide then
    if f.anyCase then none else some s
  else if s.isAscii then
    some (if f.anyCase then s.anyCase else s)
  else
    none

/-- A set, or its complement if it is negated. -/
def complement? (f : Flags) (negated : Bool) (s : CharSet) : Option CharSet :=
  if !negated then
    some s
  else if f.wide then
    some s.compl
  else
    none

/-- The set that a class stands for, which is written with a letter. -/
def class? (f : Flags) (negated : Bool) (s : CharSet) : Option CharSet :=
  if f.wide || negated then none else some s

/-- The set that the dot stands for. -/
def anyChar? (f : Flags) : Option CharSet :=
  let ends := if f.dotAll then CharSet.empty
    else if f.carriageReturn then (CharSet.single '\n').union (.single '\r')
    else .single '\n'
  if f.wide then some ends.compl else none

/-! ### Blanks and comments -/

/-- The characters of a kind that a text starts with, and the text behind them. If blanks and
comments mean nothing, they may stand in front, between and behind; a comment starts with a number
sign and goes on to the end of its line. -/
def span (f : Flags) (kind : Char → Bool) (inComment : Bool) : List Char → List Char × List Char
  | [] => ([], [])
  | c :: rest =>
    if inComment then
      span f kind (c != '\n') rest
    else if f.spaced && c == '#' then
      span f kind true rest
    else if f.spaced && Blank.holds c then
      span f kind false rest
    else if kind c then
      let (run, left) := span f kind false rest
      (c :: run, left)
    else
      ([], c :: rest)

/-- A text from its next character on. -/
def skip (f : Flags) (text : List Char) : List Char :=
  (f.span (fun _ => false) false text).2

/-- The character that a minus sign is judged by, in front of this text. It may be in a comment. -/
def peek (f : Flags) (text : List Char) : Option Char :=
  if f.spaced then
    match Blank.skip text with
    | '#' :: rest => (Blank.skip rest).head?
    | rest => rest.head?
  else
    text.head?

/-! ### Setting flags -/

/-- The flags with one of them set or unset, if the letter is that of a flag. -/
def turn (f : Flags) (letter : Char) (on : Bool) : Option Flags :=
  match letter with
  | 'i' => some { f with anyCase := on }
  | 'm' => some { f with multiLine := on }
  | 's' => some { f with dotAll := on }
  | 'R' => some { f with carriageReturn := on }
  | 'U' => some { f with sparing := on }
  | 'u' => some { f with wide := on }
  | 'x' => some { f with spaced := on }
  | _ => none

/-- The flags after those that are written, and the text from the character behind them on. The
letters behind a minus sign are unset. No letter is written twice, and the sign is written once and
in front of a letter; `seen` holds what was read, the latest first. -/
def read (f : Flags) (on : Bool) (seen : List Char) : List Char → Option (Flags × List Char)
  | [] => none
  | c :: rest =>
    if c = ':' ∨ c = ')' then
      if seen.head? = some '-' then none else some (f, c :: rest)
    else if c ∈ seen then
      none
    else if c = '-' then
      read f false (c :: seen) rest
    else
      match f.turn c on with
      | some f => read f on (c :: seen) rest
      | none => none

end Flags

/-! ### Unit tests: flags in front of a group, and a comment in a text -/

example : Flags.plain.read true [] ['x', '-', 'u', ':'] =
    some ({ Flags.plain with spaced := true, wide := false }, [':']) := by decide

example : Flags.plain.read true [] ['i', '-', ')'] = none := by decide

example : { Flags.plain with spaced := true }.span Char.isDigit false
    [' ', '1', '#', '2', '\n', '3'] = (['1', '3'], []) := by decide

end ChipEight.Pattern
