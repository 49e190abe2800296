import ChipEight.Pattern.CharSet

namespace ChipEight

/-!
# Patterns — what a search looks for in a line

A pattern is a regular expression, and a line is a text without a line end in it. Patterns are built
in a plain form: texts that follow each other are one text, single characters to choose from are one
set, alternatives share what they have in common in front, and what takes no character is repeated
at most once. How large a pattern is depends on that form, and what it matches does not.

* `WordEdge`, `Edge`, `Edge.holds` — what may be asked of the characters around a place;
* `Pattern` — the patterns;
* `Pattern.takesNothing`, `Pattern.least?` — how much a match takes;
* `Pattern.ofSet`, `Pattern.concat`, `Pattern.choice`, `Pattern.times` — patterns in plain form.
-/

/-! ### Places -/

/-- A question about the words at a place. -/
inductive WordEdge where
  /-- A word starts or ends here. -/
  | either
  /-- No word starts or ends here. -/
  | neither
  /-- A word starts here. -/
  | first
  /-- A word ends here. -/
  | last
  /-- No word reaches here from the left. -/
  | firstHalf
  /-- No word goes on to the right. -/
  | lastHalf
deriving DecidableEq, Repr

/-- A question about the characters around a place. -/
inductive Edge where
  /-- The text starts here. -/
  | textFirst
  /-- The text ends here. -/
  | textLast
  /-- A line starts here; a carriage return may belong to line ends. -/
  | lineFirst (carriageReturn : Bool)
  /-- A line ends here; a carriage return may belong to line ends. -/
  | lineLast (carriageReturn : Bool)
  /-- A question about words; if it is wide, words have letters beyond ASCII. -/
  | word (e : WordEdge) (wide : Bool)
deriving DecidableEq, Repr

/-- Whether a character is there and belongs to words. -/
def WordEdge.inWord (c : Option Char) : Bool :=
  c.any CharSet.word.holds

/-- The answer for a place between two characters; one is missing at an end of the line. -/
def WordEdge.holds (before after : Option Char) : WordEdge → Bool
  | either => inWord before != inWord after
  | neither => inWord before == inWord after
  | first => !inWord before && inWord after
  | last => inWord before && !inWord after
  | firstHalf => !inWord before
  | lastHalf => !inWord after

/-- The answer for a place of a line, which is a text of its own. -/
def Edge.holds (before after : Option Char) : Edge → Bool
  | textFirst | lineFirst _ => before.isNone
  | textLast | lineLast _ => after.isNone
  | word e _ => e.holds before after

/-! ### Patterns -/

/-- A regular expression. -/
inductive Pattern where
  /-- The empty text. -/
  | empty
  /-- A text that is not empty. -/
  | text (cs : List Char)
  /-- One character of a set, which was written with wide characters or with ASCII alone. -/
  | set (s : CharSet) (wide : Bool)
  /-- The empty text at a place of a kind. -/
  | edge (e : Edge)
  /-- A pattern whose match is to be told apart, by its number. -/
  | group (number : Nat) (p : Pattern)
  /-- A pattern so often, at least and, if there is a bound, at most; as rarely as it can be if it
  is sparing. -/
  | repeated (p : Pattern) (least : Nat) (most : Option Nat) (sparing : Bool)
  /-- One pattern after another, which may be a join itself. -/
  | join (p q : Pattern)
  /-- One of two patterns, the second of which may be a choice itself. -/
  | either (p q : Pattern)
deriving DecidableEq, Repr

namespace Pattern

/-- Whether every match is empty. -/
def takesNothing : Pattern → Bool
  | empty => true
  | text _ => false
  | set _ _ => false
  | edge _ => true
  | group _ p => p.takesNothing
  | repeated p _ most _ => most.isSome && p.takesNothing
  | join p q => p.takesNothing && q.takesNothing
  | either p q => p.takesNothing && q.takesNothing

/-- A number of characters that every match takes; none if a set without a character is in the
way. -/
def least? : Pattern → Option Nat
  | empty => some 0
  | text cs => some cs.length
  | set s _ => if s.isEmpty then none else some 1
  | edge _ => some 0
  | group _ p => p.least?
  | repeated p least _ _ => p.least?.map (· * least)
  | join p q => p.least?.bind fun m => q.least?.map fun n => m + n
  | either p q => p.least?.bind fun m => q.least?.map fun n => min m n

/-! ### Plain form -/

/-- The pattern without a match. -/
def never : Pattern :=
  set .empty false

/-- The pattern of one character of a set. -/
def ofSet (s : CharSet) (wide : Bool) : Pattern :=
  match s.single? with
  | some c => text [c]
  | none => if s.isEmpty then never else set s wide

/-- The parts that follow each other in a pattern. -/
def parts : Pattern → List Pattern
  | empty => []
  | join p q => p :: q.parts
  | p => [p]

/-- The pattern with some parts. -/
def ofParts : List Pattern → Pattern
  | [] => empty
  | [p] => p
  | p :: rest => join p (ofParts rest)

/-- Parts with one more in front, which becomes one text with a text behind it. -/
def prepend (p : Pattern) (rest : List Pattern) : List Pattern :=
  match p, rest with
  | text cs, text ds :: rest => text (cs ++ ds) :: rest
  | _, _ => p :: rest

/-- Patterns one after another. -/
def concat (ps : List Pattern) : Pattern :=
  ofParts ((ps.flatMap parts).foldr prepend [])

/-- The patterns that a pattern chooses from. -/
def alternatives : Pattern → List Pattern
  | either p q => p :: q.alternatives
  | p => [p]

/-- The pattern that chooses from some; from none there is no match. -/
def ofAlternatives : List Pattern → Pattern
  | [] => never
  | [p] => p
  | p :: rest => either p (ofAlternatives rest)

/-- The set of the character that a pattern is. -/
def charSet? : Pattern → Option CharSet
  | text [c] => some (.single c)
  | _ => none

/-- The set that a pattern is. -/
def set? : Pattern → Option CharSet
  | set s _ => some s
  | _ => none

/-- One of some patterns that are no choices: a set if all are characters or all are sets. -/
def pick (all : List Pattern) : Pattern :=
  match all with
  | [] | [_] => ofAlternatives all
  | _ =>
    match all.mapM charSet?, all.mapM set? with
    | some sets, _ => ofSet (sets.foldl .union .empty) true
    | none, some sets => ofSet (sets.foldl .union .empty) true
    | none, none => ofAlternatives all

/-- What two lists have in common in front. -/
def sharedFront : List Pattern → List Pattern → List Pattern
  | p :: ps, q :: qs => if p = q then p :: sharedFront ps qs else []
  | _, _ => []

/-- The parts that all of some alternatives start with, if each of them has several. -/
def commonFront : List Pattern → List Pattern
  | [] => []
  | p :: rest =>
    if (p :: rest).all fun q => 2 ≤ q.parts.length then
      rest.foldl (fun front q => sharedFront front q.parts) p.parts
    else
      []

/-- One of some patterns. What all alternatives start with is taken in front of the choice. -/
def choice (ps : List Pattern) : Pattern :=
  match ps.flatMap alternatives with
  | [p] => p
  | all =>
    match commonFront all with
    | [] => pick all
    | front =>
      let rests := all.map fun p => concat (p.parts.drop front.length)
      concat (front ++ [pick (rests.flatMap alternatives)])

/-- A pattern so often. What takes nothing is repeated once at most. -/
def times (p : Pattern) (least : Nat) (most : Option Nat) (sparing : Bool) : Pattern :=
  let least := if p.takesNothing then min least 1 else least
  let most := if p.takesNothing then some (min (most.getD 1) 1) else most
  if most = some 0 then
    empty
  else if least = 1 ∧ most = some 1 then
    p
  else
    repeated p least most sparing

/-! ### Unit tests: plain forms -/

example : concat [text ['a'], empty, join (text ['b']) (edge .textLast)] =
    join (text ['a', 'b']) (edge .textLast) := by decide

example : choice [text ['a'], either (text ['c']) (text ['b'])] = set (.range 'a' 'c') true := by
  decide

example : choice [join (edge .textFirst) (text ['a']), join (edge .textFirst) (text ['b'])] =
    join (edge .textFirst) (set (.range 'a' 'b') true) := by decide

example : times (edge .textFirst) 3 none false = edge .textFirst := by decide

end Pattern

end ChipEight
