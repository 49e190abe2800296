import ChipEight.Pattern.Flags
import ChipEight.Text.Hex

namespace ChipEight.Pattern

/-!
# Escapes — what a backslash makes of the text behind it

A letter behind a backslash has a meaning of its own or none at all, and so has an angle bracket.
Any other ASCII character but a digit stands for itself.

* `Escape` — what an escape stands for;
* `Escape.table` — the escapes of one character;
* `Escape.codeChar?`, `Escape.takeDigits`, `Escape.readCode` — a character by its code;
* `Escape.readWordEdge` — the edge of a word, of which a name in braces may pick a half;
* `Escape.read` — the escape at the start of a text.
-/

/-- What an escape stands for. -/
inductive Escape where
  /-- A character. -/
  | char (c : Char)
  /-- A character by a code of two digits, which is a byte as long as a pattern is not wide. -/
  | byte (c : Char)
  /-- The characters of a class, or all others. -/
  | letters (s : CharSet) (negated : Bool)
  /-- An end of the text. -/
  | place (e : Edge)
  /-- A question about words. -/
  | word (e : WordEdge)
deriving DecidableEq, Repr

namespace Escape

/-- The escapes of one character. -/
def table : List (Char × Escape) :=
  [('d', .letters .digit false), ('D', .letters .digit true),
   ('s', .letters .space false), ('S', .letters .space true),
   ('w', .letters .word false), ('W', .letters .word true),
   ('a', .char '\x07'), ('t', .char '\t'), ('n', .char '\n'),
   ('v', .char '\x0b'), ('f', .char '\x0c'), ('r', .char '\r'),
   ('A', .place .textFirst), ('z', .place .textLast),
   ('B', .word .neither), ('<', .word .first), ('>', .word .last)]

/-! ### Characters by their codes -/

/-- How many digits the code has that follows a letter. -/
def codeWidth? : Char → Option Nat
  | 'x' => some 2
  | 'u' => some 4
  | 'U' => some 8
  | _ => none

/-- The character with a code in hexadecimal digits. -/
def codeChar? (digits : List Char) : Option Char :=
  let add (code : Option Nat) (c : Char) : Option Nat :=
    code.bind fun n => (Hex.digitValue? c).map fun d => n * 16 + d
  (digits.foldl add (some 0)).bind fun n => if n.isValidChar then some (Char.ofNat n) else none

/-- So many hexadecimal digits at the start of a text, and what is behind them. -/
def takeDigits (f : Flags) : Nat → List Char → Option (List Char × List Char)
  | 0, rest => some ([], rest)
  | n + 1, c :: rest =>
    if (Hex.digitValue? c).isSome then
      (takeDigits f n (f.skip rest)).map fun r => (c :: r.1, r.2)
    else
      none
  | _ + 1, [] => none

/-- The character whose code is at the start of a text: so many digits, or any number of them in
braces. -/
def readCode (f : Flags) (width : Nat) (text : List Char) : Option (Escape × List Char) :=
  match f.skip text with
  | '{' :: inside =>
    let (digits, rest) := f.span (fun c => (Hex.digitValue? c).isSome) false inside
    match rest with
    | '}' :: rest =>
      if digits.isEmpty then none else (codeChar? digits).map fun c => (.char c, f.skip rest)
    | _ => none
  | inside =>
    (takeDigits f width inside).bind fun (digits, rest) =>
      (codeChar? digits).map fun c => (if width = 2 then .byte c else .char c, rest)

/-! ### Edges of words -/

/-- The names of the edges of words. -/
def wordEdges : List (String × WordEdge) :=
  [("start", .first), ("end", .last), ("start-half", .firstHalf), ("end-half", .lastHalf)]

/-- The edge of a word. Braces without a name are no part of it. -/
def readWordEdge (f : Flags) (text : List Char) : Option (WordEdge × List Char) :=
  match text with
  | '{' :: inside =>
    let (name, rest) := f.span (fun c => c.isAlpha || c == '-') false inside
    if name.isEmpty then
      some (.either, text)
    else
      match rest with
      | '}' :: rest => (wordEdges.lookup (String.ofList name)).map (·, rest)
      | _ => none
  | _ => some (.either, text)

/-! ### Escapes -/

/-- The escape at the start of a text, which follows a backslash, and what is left of the text. -/
def read (f : Flags) (text : List Char) : Option (Escape × List Char) :=
  match text with
  | [] => none
  | 'b' :: rest => (readWordEdge f rest).map fun r => (.word r.1, r.2)
  | c :: rest =>
    match codeWidth? c, table.lookup c with
    | some width, _ => readCode f width rest
    | none, some e => some (e, rest)
    | none, none => if c.isAlphanum || 128 ≤ c.toNat then none else some (.char c, rest)

/-- The pattern that an escape stands for. -/
def pattern? (f : Flags) : Escape → Option Pattern
  | char c => f.char? c
  | byte c => if f.wide || c.toNat < 128 then f.char? c else none
  | letters s negated => (f.class? negated s).map (ofSet · f.wide)
  | place e => some (edge e)
  | word e => some (edge (.word e f.wide))

/-- The set that an escape stands for in brackets, which hold no places. -/
def set? (f : Flags) : Escape → Option CharSet
  | char c => f.item? (.single c)
  | byte c => f.item? (.single c)
  | letters s negated => f.class? negated s
  | place _ => none
  | word _ => none

/-- The character that an escape stands for. -/
def char? : Escape → Option Char
  | char c => some c
  | byte c => some c
  | _ => none

end Escape

/-! ### Unit tests: codes, edges, and letters without a meaning -/

example : Escape.read .plain ['x', '4', '1', '+'] = some (.byte 'A', ['+']) := by decide

example : Escape.read .plain ['u', '{', '4', '1', '}'] = some (.char 'A', []) := by decide

example : Escape.read .plain ['b', '{', 'e', 'n', 'd', '}'] = some (.word .last, []) := by decide

example : Escape.read .plain ['b', '{', '2', '}'] = some (.word .either, ['{', '2', '}']) := by
  decide

example : Escape.read .plain ['q'] = none := by decide

end ChipEight.Pattern
