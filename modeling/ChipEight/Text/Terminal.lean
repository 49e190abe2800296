namespace ChipEight.Terminal

/-!
# Terminals — the part of a text that a terminal shows

A terminal takes some characters as orders. An escape character starts a sequence of them: a short
one, a control sequence, a command to the operating system, a device control string or a message.
What is left of a text without them is what it shows.

* `State`, `State.next`, `State.shows` — where in a sequence a character stands, and whether it is
  shown there;
* `shown` — a text without orders.
-/

/-! ### States -/

/-- Where in a sequence a character stands. -/
inductive State where
  /-- In no sequence. -/
  | ground
  /-- Behind an escape character. -/
  | escape
  /-- Behind that and further characters of a short sequence. -/
  | escapeMore
  /-- In a control sequence. -/
  | control
  /-- In a command to the operating system. -/
  | command
  /-- At the start of a device control string. -/
  | deviceEntry
  /-- In the parameters of a device control string. -/
  | deviceParam
  /-- Behind the parameters of a device control string. -/
  | deviceMore
  /-- In the body of a device control string. -/
  | deviceBody
  /-- In a message. -/
  | message
deriving DecidableEq, Repr

/-- Whether the code of a character is in a closed range. -/
def within (c : Char) (lo hi : Nat) : Bool :=
  decide (lo ≤ c.toNat ∧ c.toNat ≤ hi)

/-- Whether a character ends a body or a message: it does if it is written with the byte `0x9C`. -/
def endsBody (c : Char) : Bool :=
  (String.utf8EncodeChar c).contains 0x9C

/-- The state behind a character that is not shown. -/
def State.next (s : State) (c : Char) : State :=
  if c = '\x18' ∨ c = '\x1a' then
    ground
  else if c = '\x1b' then
    escape
  else
    match s with
    | ground => ground
    | escape =>
      if within c 0x20 0x2F then escapeMore
      else if c = '[' then control
      else if c = ']' then command
      else if c = 'P' then deviceEntry
      else if c = 'X' ∨ c = '^' ∨ c = '_' then message
      else if within c 0x30 0x7E then ground
      else escape
    | escapeMore => if within c 0x30 0x7E then ground else escapeMore
    | control => if within c 0x40 0x7E then ground else control
    | command => if c = '\x07' then ground else command
    | deviceEntry =>
      if within c 0x20 0x2F then deviceMore
      else if within c 0x30 0x3F then deviceParam
      else if within c 0x40 0x7E then deviceBody
      else deviceEntry
    | deviceParam =>
      if within c 0x20 0x2F then deviceMore
      else if within c 0x30 0x3B then deviceParam
      else if within c 0x30 0x7E then deviceBody
      else deviceParam
    | deviceMore => if within c 0x30 0x7E then deviceBody else deviceMore
    | deviceBody => if endsBody c then ground else deviceBody
    | message => if endsBody c then ground else message

/-- Whether a character is a blank that is shown even between others of a sequence. -/
def isLayout (c : Char) : Bool :=
  ['\t', '\n', '\x0c', '\r'].contains c

/-- Whether a character is shown. -/
def State.shows (s : State) (c : Char) : Bool :=
  match s with
  | ground => isLayout c || (decide (' ' ≤ c) && c != '\x7f')
  | escape | escapeMore | control => isLayout c
  | _ => false

/-! ### Texts -/

/-- The part of a text that is shown, from a state on. Behind a shown character the text goes on as
if it were in no sequence, until there is one that is not shown then. -/
def shownFrom (run : Bool) (s : State) : List Char → List Char
  | [] => []
  | c :: rest =>
    if (if run then State.ground else s).shows c then
      c :: shownFrom true (if within c 0 0x7F then s else .ground) rest
    else
      shownFrom false (s.next c) rest

/-- The part of a text that is shown. -/
def shown (text : List Char) : List Char :=
  shownFrom false .ground text

/-! ### Unit tests: sequences, and blanks that are shown -/

example : shown ['\x1b', '[', '3', '1', 'm', '5', '\x1b', '[', 'm'] = ['5'] := by decide

example : shown ['\x1b', ']', '0', ';', 't', '\x07', 'é', '\x7f', '\x08'] = ['é'] := by decide

example : shown ['\x1b', 'P', '1', 'q', '#', '\x1b', '\\', '7'] = ['7'] := by decide

-- Behind the line end the letter is shown, and the sequence goes on at the next order.
example : shown ['\x1b', '[', '\n', 'm', '\x01', 'm', 'n'] = ['\n', 'm', 'n'] := by decide

end ChipEight.Terminal
