namespace ChipEight

/-!
# Sets of characters — what one place of a pattern may hold

A set is kept as closed ranges of code points in ascending order. The code points that are no
characters lie between two ranges or inside one, and only ASCII letters have two cases here.

* `CharSet`, `CharSet.holds` — the sets, and the characters in them;
* `CharSet.ofRanges`, `CharSet.range`, `CharSet.single` — sets from ranges and characters;
* `CharSet.union`, `CharSet.compl`, `CharSet.inter`, `CharSet.diff`, `CharSet.symmDiff` — the
  operations of sets;
* `CharSet.anyCase` — the characters of a set in either case;
* `CharSet.digit`, `CharSet.space`, `CharSet.word`, `CharSet.ofName?` — the sets in use.
-/

/-- A set of characters. -/
structure CharSet where
  /-- The closed ranges of code points, in ascending order. -/
  ranges : List (Nat × Nat)
deriving DecidableEq, Repr

namespace CharSet

/-- The largest code point. -/
abbrev maxCode : Nat := 0x10FFFF

/-- Whether a code point is in one of some ranges. -/
def covers (ranges : List (Nat × Nat)) (n : Nat) : Bool :=
  ranges.any fun r => decide (r.1 ≤ n ∧ n ≤ r.2)

/-- Whether a set holds a character. -/
def holds (s : CharSet) (c : Char) : Bool :=
  covers s.ranges c.toNat

/-- The set without a character. -/
def empty : CharSet where
  ranges := []

/-- The set of all characters. -/
def full : CharSet where
  ranges := [(0, maxCode)]

/-- Whether there is no character in a set. -/
def isEmpty (s : CharSet) : Bool :=
  s.ranges.isEmpty

/-- Whether all characters of a set are ASCII. -/
def isAscii (s : CharSet) : Bool :=
  s.ranges.all fun r => decide (r.2 < 128)

/-! ### Union -/

/-- Ranges with one more in their order, merged with those that it meets. -/
def insertRange (r : Nat × Nat) : List (Nat × Nat) → List (Nat × Nat)
  | [] => [r]
  | s :: rest =>
    if r.2 + 1 < s.1 then
      r :: s :: rest
    else if s.2 + 1 < r.1 then
      s :: insertRange r rest
    else
      insertRange (min r.1 s.1, max r.2 s.2) rest

/-- The characters of either set. -/
def union (s t : CharSet) : CharSet where
  ranges := t.ranges.foldr insertRange s.ranges

/-- The set of the characters in some ranges. -/
def ofRanges (ranges : List (Nat × Nat)) : CharSet where
  ranges := ranges.foldr insertRange []

/-- The characters from one to another, which is not before it. -/
def range (first last : Char) : CharSet where
  ranges := [(first.toNat, last.toNat)]

/-- The set of one character. -/
def single (c : Char) : CharSet :=
  range c c

/-- The character of a set that holds no other. -/
def single? (s : CharSet) : Option Char :=
  match s.ranges with
  | [(first, last)] => if first = last then some (Char.ofNat first) else none
  | _ => none

/-! ### Complement -/

/-- The code point of the next character. -/
def codeAfter (n : Nat) : Nat :=
  if n = 0xD7FF then 0xE000 else n + 1

/-- The code point of the character before one. -/
def codeBefore (n : Nat) : Nat :=
  if n = 0xE000 then 0xD7FF else n - 1

/-- The range between two ranges. If there is no character between them, it goes from the end of the
one to the start of the other. -/
def between (r s : Nat × Nat) : Nat × Nat :=
  let first := codeAfter r.2
  let last := codeBefore s.1
  (min first last, max first last)

/-- The ranges between ranges and behind the last of them. -/
def gaps : List (Nat × Nat) → List (Nat × Nat)
  | [] => []
  | [r] => if r.2 < maxCode then [(codeAfter r.2, maxCode)] else []
  | r :: s :: rest => between r s :: gaps (s :: rest)

/-- The characters that a set does not hold. -/
def compl (s : CharSet) : CharSet where
  ranges :=
    match s.ranges with
    | [] => full.ranges
    | r :: _ => (if 0 < r.1 then [(0, codeBefore r.1)] else []) ++ gaps s.ranges

/-! ### What two sets have in common -/

/-- The part of a range that is in another. -/
def overlap? (r s : Nat × Nat) : Option (Nat × Nat) :=
  if max r.1 s.1 ≤ min r.2 s.2 then some (max r.1 s.1, min r.2 s.2) else none

/-- The characters of both sets. -/
def inter (s t : CharSet) : CharSet where
  ranges := s.ranges.flatMap fun r => t.ranges.filterMap (overlap? r)

/-- What is left of a range without some ranges. -/
def remove (r : Nat × Nat) : List (Nat × Nat) → List (Nat × Nat)
  | [] => [r]
  | s :: rest =>
    if s.2 < r.1 then
      remove r rest
    else if r.2 < s.1 then
      [r]
    else
      (if r.1 < s.1 then [(r.1, codeBefore s.1)] else [])
        ++ (if s.2 < r.2 then remove (codeAfter s.2, r.2) rest else [])

/-- The characters of a set that another does not hold. -/
def diff (s t : CharSet) : CharSet where
  ranges := s.ranges.flatMap fun r => remove r t.ranges

/-- The characters of exactly one of two sets. -/
def symmDiff (s t : CharSet) : CharSet :=
  (s.union t).diff (s.inter t)

/-! ### Cases -/

/-- The lower-case letters. -/
def lower : CharSet :=
  range 'a' 'z'

/-- The upper-case letters. -/
def upper : CharSet :=
  range 'A' 'Z'

/-- The characters of a set in either case. -/
def anyCase (s : CharSet) : CharSet :=
  let raised := (s.inter lower).ranges.map fun r => (r.1 - 32, r.2 - 32)
  let lowered := (s.inter upper).ranges.map fun r => (r.1 + 32, r.2 + 32)
  (s.union (ofRanges raised)).union (ofRanges lowered)

/-! ### Sets in use -/

/-- The digits. -/
def digit : CharSet :=
  range '0' '9'

/-- The blanks of ASCII. -/
def space : CharSet :=
  (range '\t' '\r').union (single ' ')

/-- The letters of ASCII. -/
def alpha : CharSet :=
  upper.union lower

/-- The characters of words: letters, digits and the underscore. -/
def word : CharSet :=
  (alpha.union digit).union (single '_')

/-- The sets that have a name. -/
def named : List (String × CharSet) :=
  [("alnum", alpha.union digit),
   ("alpha", alpha),
   ("ascii", range '\x00' '\x7f'),
   ("blank", (single '\t').union (single ' ')),
   ("cntrl", (range '\x00' '\x1f').union (single '\x7f')),
   ("digit", digit),
   ("graph", range '!' '~'),
   ("lower", lower),
   ("print", range ' ' '~'),
   ("punct", (range '!' '~').diff (alpha.union digit)),
   ("space", space),
   ("upper", upper),
   ("word", word),
   ("xdigit", digit.union ((range 'a' 'f').union (range 'A' 'F')))]

/-- The set with a name. -/
def ofName? (name : String) : Option CharSet :=
  named.lookup name

/-! ### Unit tests: operations of sets -/

example : (range 'a' 'f').symmDiff (range 'd' 'z') = (range 'a' 'c').union (range 'g' 'z') := by
  decide

example : (ofName? "punct").map (·.ranges) =
    some [(0x21, 0x2F), (0x3A, 0x40), (0x5B, 0x60), (0x7B, 0x7E)] := by decide

example : ((range '0' 'C').union (single 'x')).anyCase.ranges =
    [(0x30, 0x43), (0x58, 0x58), (0x61, 0x63), (0x78, 0x78)] := by decide

end CharSet

end ChipEight
