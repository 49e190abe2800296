import ChipEight.Pattern.Basic

namespace ChipEight.Pattern

/-!
# Searching — where a line has matches

A line has a place before each of its characters and one at its end. For every place there is the
set of the lengths of the matches that start there, and the sets of a pattern come from those of its
parts. A set of lengths is a number here: its bit `k` tells whether `k` is in the set.

* `Lengths` — sets of lengths, for the places of a line in their order;
* `atPlaces` — sets that depend on what is before and after a place;
* `follow`, `followed`, `closure` — matches behind matches, once and any number of times;
* `lengths` — the lengths of the matches of a pattern;
* `found` — whether a line has a match.
-/

/-- A set of lengths for every place of a line. -/
abbrev Lengths := List Nat

/-- The sets that a rule gives for the places of a text, from the character before the place and the
text after it. -/
def atPlaces (rule : Option Char → List Char → Nat) (before : Option Char) : List Char → Lengths
  | [] => [rule before []]
  | c :: rest => rule before (c :: rest) :: atPlaces rule (some c) rest

/-- The lengths that come from a set of lengths at the first of some places, each with a match
behind it. -/
def follow (first : Nat) : Lengths → Nat
  | [] => 0
  | next :: rest =>
    if first = 0 then
      0
    else
      (if first % 2 = 1 then next else 0) ||| follow (first / 2) rest <<< 1

/-- The lengths of matches with matches behind them. -/
def followed : Lengths → Lengths → Lengths
  | [], _ => []
  | first :: rest, behind => follow first behind :: followed rest behind.tail

/-- The lengths of any number of matches behind each other. Empty ones add nothing, so those from a
place need only those from the places behind it. -/
def closure : Lengths → Lengths
  | [] => []
  | first :: rest =>
    let behind := closure rest
    (1 ||| follow (first / 2) behind <<< 1) :: behind

/-- The lengths of the matches of either of two patterns. -/
def merged (some others : Lengths) : Lengths :=
  List.zipWith (· ||| ·) some others

/-- The lengths of the empty match at every place. -/
def noChars (line : List Char) : Lengths :=
  List.replicate (line.length + 1) 1

/-- The lengths of so many matches behind each other. No more rounds are made than there are places:
of more matches some are empty, and those can be left out or made again. -/
def power (line : List Char) (once : Lengths) (n : Nat) : Lengths :=
  Nat.repeat (followed once) (min n (line.length + 1)) (noChars line)

/-- The lengths of the matches of a pattern, for the places of a line. -/
def lengths (line : List Char) : Pattern → Lengths
  | empty => noChars line
  | text cs =>
    atPlaces (fun _ after => if cs.isPrefixOf after then 1 <<< cs.length else 0) none line
  | set s _ => atPlaces (fun _ after => if after.head?.any s.holds then 2 else 0) none line
  | edge e => atPlaces (fun before after => if e.holds before after.head? then 1 else 0) none line
  | group _ p => lengths line p
  | repeated p least most _ =>
    let once := lengths line p
    followed (power line once least)
      (match most with
      | none => closure once
      | some n => power line (merged (noChars line) once) (n - least))
  | join p q => followed (lengths line p) (lengths line q)
  | either p q => merged (lengths line p) (lengths line q)

/-- Whether a line has a match. -/
def found (p : Pattern) (line : List Char) : Bool :=
  (lengths line p).any (· != 0)

/-! ### Unit tests: lengths at every place -/

example : lengths ['a', 'a', 'b'] (repeated (text ['a']) 0 none false) = [7, 3, 1, 1] := by decide

example :
    lengths ['a', 'a', 'b'] (repeated (text ['a']) 2 (some 4000000000) false) = [4, 0, 0, 0] := by
  decide

example : found (join (edge .textFirst) (text ['b'])) ['a', 'b'] = false := by decide

end ChipEight.Pattern
