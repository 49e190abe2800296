import ChipEight.Pattern.Flags
import ChipEight.Text.Alphanumeric

namespace ChipEight.Pattern

/-!
# Groups — parts that parentheses hold together

A group chooses from alternatives with strokes between them, and each of them is a list of parts.
The text as a whole is read like a group.

* `Part`, `Part.sequence`, `Part.choice` — parts, lists of parts, and choices from them;
* `Group` — a group that is being read: `Group.add`, `Group.setFlags`, `Group.stroke`,
  `Group.repeat?`, `Group.close`;
* `isGroupName`, `splitGroupName` — the names of groups;
* `Opening`, `Opening.read` — what an opening parenthesis starts.
-/

/-! ### Parts -/

/-- A part of a text. -/
structure Part where
  /-- What it looks for. -/
  pattern : Pattern
  /-- How deep the groups, the repetitions, the brackets, the choices and the lists of parts in it
  are nested. -/
  depth : Nat
  /-- Whether it can be repeated; what only sets flags cannot. -/
  repeatable : Bool
deriving DecidableEq, Repr

namespace Part

/-- A part without anything in it. -/
def leaf (p : Pattern) : Part :=
  ⟨p, 0, true⟩

/-- How deep the deepest of some parts is. -/
def deepest (parts : List Part) : Nat :=
  (parts.map (·.depth)).foldl max 0

/-- Parts one after another. -/
def sequence : List Part → Part
  | [] => leaf .empty
  | [p] => p
  | parts => ⟨Pattern.concat (parts.map (·.pattern)), deepest parts + 1, true⟩

/-- One of some parts. -/
def choice : List Part → Part
  | [p] => p
  | parts => ⟨Pattern.choice (parts.map (·.pattern)), deepest parts + 1, true⟩

end Part

/-! ### Groups -/

/-- A group that is being read. -/
structure Group where
  /-- The flags in force. -/
  flags : Flags
  /-- The number of the group, if its match is to be told apart. -/
  number : Option Nat
  /-- The alternatives in front of the latest stroke, the latest first. -/
  earlier : List Part
  /-- The parts since then, the latest first. -/
  parts : List Part
deriving DecidableEq, Repr

namespace Group

/-- A group of which nothing was read. -/
def opened (f : Flags) (number : Option Nat) : Group where
  flags := f
  number := number
  earlier := []
  parts := []

/-- The group with one more part. -/
def add (g : Group) (p : Part) : Group :=
  { g with parts := p :: g.parts }

/-- The group with other flags from here on. -/
def setFlags (g : Group) (f : Flags) : Group :=
  { g with flags := f, parts := ⟨.empty, 0, false⟩ :: g.parts }

/-- The group after a stroke, which starts another alternative. -/
def stroke (g : Group) : Group :=
  { g with earlier := Part.sequence g.parts.reverse :: g.earlier, parts := [] }

/-- The group with its latest part repeated, if there is one that can be. -/
def repeat? (g : Group) (least : Nat) (most : Option Nat) (marked : Bool) : Option Group :=
  match g.parts with
  | [] => none
  | p :: parts =>
    if p.repeatable then
      let pattern := p.pattern.times least most (marked != g.flags.sparing)
      some { g with parts := ⟨pattern, p.depth + 1, true⟩ :: parts }
    else
      none

/-- All that was read. -/
def content (g : Group) : Part :=
  Part.choice (Part.sequence g.parts.reverse :: g.earlier).reverse

/-- The part that the group is when it is closed. -/
def close (g : Group) : Part :=
  let pattern := match g.number with
    | some n => .group n g.content.pattern
    | none => g.content.pattern
  ⟨pattern, g.content.depth + 1, true⟩

end Group

/-! ### Openings -/

/-- What an opening parenthesis starts. -/
inductive Opening where
  /-- A group with flags of its own, which may have a name. -/
  | group (f : Flags) (captures : Bool) (name : Option (List Char))
  /-- Other flags for the group that it stands in. -/
  | setting (f : Flags)
deriving DecidableEq, Repr

/-- Whether a name can be the name of a group. -/
def isGroupName (name : List Char) : Bool :=
  match name with
  | [] => false
  | c :: rest =>
    (c == '_' || Alphanumeric.isLetter c)
      && rest.all fun d => Alphanumeric.holds d || ['_', '.', '[', ']'].contains d

/-- The name of a group at the start of a text, which an angle bracket ends, and the text behind
it. -/
def splitGroupName (text : List Char) : Option (List Char × List Char) :=
  let name := text.takeWhile (· != '>')
  match text.drop name.length with
  | _ :: rest => if isGroupName name then some (name, rest) else none
  | [] => none

/-- What an opening parenthesis starts, and what is left of the text behind it. -/
def Opening.read (f : Flags) (text : List Char) : Option (Opening × List Char) :=
  let named (r : List Char × List Char) : Opening × List Char := (.group f true (some r.1), r.2)
  match f.skip text with
  | '?' :: 'P' :: '<' :: rest => (splitGroupName rest).map named
  | '?' :: '<' :: rest => (splitGroupName rest).map named
  | '?' :: rest =>
    match f.read true [] rest with
    | some (f, ':' :: behind) => some (.group f false none, behind)
    | some (f, _ :: behind) => if rest.head? = some ')' then none else some (.setting f, behind)
    | _ => none
  | rest => some (.group f true none, rest)

/-! ### Unit tests: openings, and a group with two alternatives -/

example : Opening.read .plain ['?', '<', 'n', '>', 'a'] =
    some (.group .plain true (some ['n']), ['a']) := by decide

example : Opening.read .plain ['?', 's', ')'] =
    some (.setting { Flags.plain with dotAll := true }, []) := by decide

example : Opening.read .plain ['?', ')'] = none := by decide

example : (((Group.opened .plain (some 1)).add (.leaf (text ['a']))).stroke.add
    (.leaf (edge .textLast))).close =
    ⟨group 1 (either (text ['a']) (edge .textLast)), 2, true⟩ := by decide

end ChipEight.Pattern
