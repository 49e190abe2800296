import ChipEight.Pattern.Bracket
import ChipEight.Pattern.Group
import ChipEight.Pattern.Search
import ChipEight.Pattern.Size
import ChipEight.Pattern.Words

namespace ChipEight.Pattern

/-!
# Reading a pattern — from its text to what it looks for

The text is read from left to right, with the groups that are open on a stack. A pattern that is
nested too deep or asks about words beyond ASCII is refused, and so is one that is too large, unless
there are whole words to look for.

* `readCount`, `readBounds` — the bounds of a repetition;
* `Reading`, `Reading.next`, `Reading.run` — a text read in part, one part more, and to its end;
* `ofText?` — the pattern that a text spells.
-/

/-! ### Repetitions -/

/-- The number at the start of a text, with blanks around it. It has to be below 4294967296. -/
def readCount (f : Flags) (text : List Char) : Option (Nat × List Char) :=
  let (digits, rest) := f.span Char.isDigit false (Blank.skip (f.skip text))
  let n := digits.foldl (fun n c => n * 10 + (c.toNat - 48)) 0
  if digits.isEmpty || 4294967296 ≤ n then none else some (n, Blank.skip rest)

/-- The bounds of a repetition, behind an opening brace, and what is left of the text. A single
number is both bounds, and a comma without a number behind it leaves the upper bound open. -/
def readBounds (f : Flags) (text : List Char) : Option ((Nat × Option Nat) × List Char) :=
  (readCount f text).bind fun (least, rest) =>
    match rest with
    | '}' :: rest => some ((least, some least), rest)
    | ',' :: rest =>
      match f.skip rest with
      | '}' :: rest => some ((least, none), rest)
      | rest =>
        match readCount f rest with
        | some (most, '}' :: rest) =>
          if least ≤ most then some ((least, some most), rest) else none
        | _ => none
    | _ => none

/-- Whether a repetition has a mark, which changes whether it is sparing, and the text behind it. -/
def splitMark : List Char → Bool × List Char
  | '?' :: rest => (true, rest)
  | rest => (false, rest)

/-! ### Texts -/

/-- A text that was read in part. -/
structure Reading where
  /-- The innermost group that is open. -/
  group : Group
  /-- The groups around it, the nearest first. -/
  outer : List Group
  /-- How many groups have a number so far. -/
  count : Nat
  /-- The names of groups so far. -/
  names : List (List Char)
  /-- What is left of the text. -/
  rest : List Char
deriving DecidableEq, Repr

namespace Reading

/-- The reading of a text from its start. -/
def start (text : List Char) : Reading where
  group := .opened .plain none
  outer := []
  count := 0
  names := []
  rest := text

/-- The reading with one more part of the innermost group. -/
def add (r : Reading) (p : Part) (rest : List Char) : Reading :=
  { r with group := r.group.add p, rest := rest }

/-- The reading with one more part that has nothing in it. -/
def addLeaf (r : Reading) (p : Pattern) (rest : List Char) : Reading :=
  r.add (.leaf p) rest

/-- The reading with the latest part repeated. -/
def repeat? (r : Reading) (least : Nat) (most : Option Nat) (rest : List Char) : Option Reading :=
  let (marked, rest) := splitMark rest
  (r.group.repeat? least most marked).map fun g => { r with group := g, rest := rest }

/-- The reading after an opening parenthesis. No two groups have the same name. -/
def enter (r : Reading) (o : Opening) (rest : List Char) : Option Reading :=
  let outer := r.group :: r.outer
  match o with
  | .setting f => some { r with group := r.group.setFlags f, rest := rest }
  | .group f false _ => some { r with group := .opened f none, outer := outer, rest := rest }
  | .group f true name =>
    let r := { r with
      group := .opened f (some (r.count + 1))
      outer := outer
      count := r.count + 1
      rest := rest }
    match name with
    | none => some r
    | some name => if name ∈ r.names then none else some { r with names := name :: r.names }

/-- The reading after a closing parenthesis, if a group is open. -/
def leave (r : Reading) (rest : List Char) : Option Reading :=
  match r.outer with
  | [] => none
  | g :: outer => some { r with group := g.add r.group.close, outer := outer, rest := rest }

/-- The reading after the part that starts with `c` and goes on in `rest`. -/
def next (r : Reading) (c : Char) (rest : List Char) : Option Reading :=
  let f := r.group.flags
  match c with
  | '|' => some { r with group := r.group.stroke, rest := rest }
  | '(' => (Opening.read f rest).bind fun (o, rest) => r.enter o rest
  | ')' => r.leave rest
  | '?' => r.repeat? 0 (some 1) rest
  | '*' => r.repeat? 0 none rest
  | '+' => r.repeat? 1 none rest
  | '{' => (readBounds f rest).bind fun ((least, most), rest) => r.repeat? least most (f.skip rest)
  | '[' =>
    (Bracket.read f rest).map fun (n, rest) => r.add ⟨ofSet n.set f.wide, n.depth, true⟩ rest
  | '\\' => (Escape.read f rest).bind fun (e, rest) => (e.pattern? f).map (r.addLeaf · rest)
  | '.' => f.anyChar?.map fun s => r.addLeaf (ofSet s f.wide) rest
  | '^' =>
    some (r.addLeaf (edge (if f.multiLine then .lineFirst f.carriageReturn else .textFirst)) rest)
  | '$' =>
    some (r.addLeaf (edge (if f.multiLine then .lineLast f.carriageReturn else .textLast)) rest)
  | c => (f.char? c).map (r.addLeaf · rest)

/-- The whole text as a part, if it does not end inside a group. Every round takes a character, so
one round more than there are characters is enough. -/
def run : Nat → Reading → Option Part
  | 0, _ => none
  | rounds + 1, r =>
    match r.group.flags.skip r.rest with
    | [] => if r.outer.isEmpty then some r.group.content else none
    | c :: rest => (r.next c rest).bind (run rounds)

end Reading

/-! ### Patterns that are of use -/

/-- How deep a pattern may be nested. -/
abbrev maxDepth : Nat := 250

/-- Whether there is a question about words beyond ASCII in a pattern. -/
def asksWide : Pattern → Bool
  | edge (.word _ wide) => wide
  | group _ p => p.asksWide
  | repeated p _ _ _ => p.asksWide
  | join p q => p.asksWide || q.asksWide
  | either p q => p.asksWide || q.asksWide
  | _ => false

/-- Whether a pattern neither asks about a place nor tells a match apart. -/
def isBare : Pattern → Bool
  | edge _ => false
  | group _ _ => false
  | repeated p _ _ _ => p.isBare
  | join p q => p.isBare && q.isBare
  | either p q => p.isBare && q.isBare
  | _ => true

/-- Whether lines can be searched for a pattern. -/
def isUsable (p : Pattern) : Bool :=
  (p.isBare && p.wholeWords) || (!p.asksWide && p.fits)

/-- The pattern that a text spells, if it spells one that is of use. -/
def ofText? (text : List Char) : Option Pattern :=
  match Reading.run (text.length + 1) (.start text) with
  | some p => if p.depth ≤ maxDepth ∧ p.pattern.isUsable = true then some p.pattern else none
  | none => none

/-! ### Unit tests: texts, and lines with a match -/

example : ofText? [] = some empty := by decide

example :
    ofText? ['a', 'b', '*'] = some (join (text ['a']) (repeated (text ['b']) 0 none false)) := by
  decide

-- A part is searched anywhere in the line.
example : (ofText? "unknown|ran".toList).any (·.found "0x200: FFFF unknown opcode".toList) := by
  decide

example : (ofText? "^0x2[0-9]{2}: (?i-u:f)+".toList).any (·.found "0x200: FFFF".toList) := by decide

example : (ofText? "^FFFF|: $".toList).all (·.found "0x200: FFFF".toList) = false := by decide

-- Nothing to repeat, a group that is not closed, a name that comes twice.
example : ofText? "a|*".toList = none ∧ ofText? "(a".toList = none
    ∧ ofText? "(?<n>a)(?<n>b)".toList = none := by decide

-- Beyond ASCII there are no classes and no words.
example : ofText? ['\\', 'w'] = none ∧ ofText? ['\\', 'b'] = none := by decide

end ChipEight.Pattern
