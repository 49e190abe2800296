import ChipEight.Pattern.Escape

namespace ChipEight.Pattern

/-!
# Brackets — sets of characters in the text of a pattern

Brackets hold characters, ranges, escapes, names between colons and further brackets. A caret in
front takes the complement. Two equal signs of `&`, `-` or `~` combine what is before them with what
is up to the next such pair: what both hold, what only the first holds, what exactly one holds.

* `SetOp`, `Nested` — what combines sets, and sets with the depth that they are written in;
* `Bracket` — brackets that are being read: `Bracket.add`, `Bracket.combine`, `Bracket.close?`;
* `Bracket.start` — the brackets at the start of a text;
* `Bracket.readName`, `Bracket.readRange` — a named set, and a range or a single item;
* `Bracket.read` — the set in brackets.
-/

/-- How two sets are combined. -/
inductive SetOp where
  | inter
  | diff
  | symmDiff
deriving DecidableEq, Repr

/-- The set that combines two sets. -/
def SetOp.apply : SetOp → CharSet → CharSet → CharSet
  | inter => .inter
  | diff => .diff
  | symmDiff => .symmDiff

/-- A set as it is written. -/
structure Nested where
  /-- The set. -/
  set : CharSet
  /-- How deep the brackets, the pairs of signs and the lists of items in it are nested. -/
  depth : Nat
deriving DecidableEq, Repr

/-- Brackets that are being read. -/
structure Bracket where
  /-- Whether the complement is taken. -/
  negated : Bool
  /-- What is in front of the latest pair of signs, and what the pair does. -/
  before : Option (Nested × SetOp)
  /-- The items since then: their union, and the greatest of their depths. -/
  items : Nested
  /-- How many items these are. -/
  count : Nat
deriving DecidableEq, Repr

namespace Bracket

/-- Brackets of which no item was read. -/
def opened (negated : Bool) : Bracket where
  negated := negated
  before := none
  items := ⟨.empty, 0⟩
  count := 0

/-- The brackets with one more item. -/
def add (b : Bracket) (n : Nested) : Bracket :=
  { b with items := ⟨b.items.set.union n.set, max b.items.depth n.depth⟩, count := b.count + 1 }

/-- The items since the latest pair of signs, as a list if they are several. -/
def latest (b : Bracket) : Nested :=
  if b.count < 2 then b.items else { b.items with depth := b.items.depth + 1 }

/-- All that was read. -/
def total (b : Bracket) : Nested :=
  match b.before with
  | none => b.latest
  | some (n, op) => ⟨op.apply n.set b.latest.set, max n.depth b.latest.depth + 1⟩

/-- The brackets after a pair of signs. -/
def combine (b : Bracket) (op : SetOp) : Bracket :=
  { opened b.negated with before := some (b.total, op) }

/-- What brackets are worth when they are closed. -/
def close? (f : Flags) (b : Bracket) : Option Nested :=
  (f.complement? b.negated b.total.set).map (⟨·, b.total.depth + 1⟩)

/-- The brackets with one more character. -/
def addChar (f : Flags) (b : Bracket) (c : Char) : Option Bracket :=
  (f.item? (.single c)).map fun s => b.add ⟨s, 0⟩

/-- The brackets that a text starts, behind the opening one: first may come a caret, and then minus
signs or a closing bracket, which stand for themselves there. -/
def start (f : Flags) (text : List Char) : Option (Bracket × List Char) :=
  let (negated, inside) := match f.skip text with
    | '^' :: rest => (true, f.skip rest)
    | rest => (false, rest)
  let (first, rest) := match f.span (· == '-') false inside with
    | ([], ']' :: rest) => ([']'], rest)
    | r => r
  (first.foldlM (addChar f) (opened negated)).map (·, rest)

/-! ### Items -/

/-- A name at the start of a text, behind an opening bracket, and what is left of the text. The name
stands between colons, with a caret in front if it is negated, and a closing bracket follows. -/
def splitName (text : List Char) : Option (Bool × String × List Char) :=
  match text with
  | ':' :: inside =>
    let negated := inside.head? == some '^'
    let inside := if negated then inside.drop 1 else inside
    let name := inside.takeWhile (· != ':')
    match inside.drop name.length with
    | ':' :: ']' :: rest => some (negated, String.ofList name, rest)
    | _ => none
  | _ => none

/-- The named set at the start of a text, and what is left of the text; the outer option is for
whether there is one, and the inner one for whether it is refused. -/
def readName (f : Flags) (text : List Char) : Option (Option CharSet × List Char) :=
  (splitName text).bind fun (negated, name, rest) =>
    (CharSet.ofName? name).map fun s => ((f.item? s).bind (f.complement? negated), rest)

/-- The character or escape at the start of a text. -/
def readItem (f : Flags) : List Char → Option (Escape × List Char)
  | [] => none
  | '\\' :: rest => Escape.read f rest
  | c :: rest => some (.char c, rest)

/-- The range or the item at the start of a text. A minus sign makes a range, unless a closing
bracket or another minus sign seems to follow it. -/
def readRange (f : Flags) (text : List Char) : Option (CharSet × List Char) :=
  (readItem f text).bind fun (item, rest) =>
    match f.skip rest with
    | '-' :: behind =>
      if f.peek behind = some ']' ∨ f.peek behind = some '-' then
        (item.set? f).map (·, '-' :: behind)
      else
        (readItem f (f.skip behind)).bind fun (other, rest) =>
          match item.char?, other.char? with
          | some first, some last =>
            if first ≤ last then (f.item? (.range first last)).map (·, rest) else none
          | _, _ => none
    | rest => (item.set? f).map (·, rest)

/-! ### Reading brackets -/

/-- The set in brackets, read on inside the brackets `b`, which stand in `outer`, and what is left
of the text. Every round takes a character, so as many rounds as there are characters are enough. -/
def readItems (f : Flags) :
    Nat → Bracket → List Bracket → List Char → Option (Nested × List Char)
  | 0, _, _, _ => none
  | rounds + 1, b, outer, inside =>
    match f.skip inside with
    | ']' :: rest =>
      match outer, b.close? f with
      | [], some n => some (n, rest)
      | o :: outer, some n => readItems f rounds (o.add n) outer rest
      | _, none => none
    | '[' :: rest =>
      match readName f rest with
      | some (some s, rest) => readItems f rounds (b.add ⟨s, 0⟩) outer rest
      | some (none, _) => none
      | none => (start f rest).bind fun (inner, rest) => readItems f rounds inner (b :: outer) rest
    | '&' :: '&' :: rest => readItems f rounds (b.combine .inter) outer rest
    | '-' :: '-' :: rest => readItems f rounds (b.combine .diff) outer rest
    | '~' :: '~' :: rest => readItems f rounds (b.combine .symmDiff) outer rest
    | rest => (readRange f rest).bind fun (s, rest) => readItems f rounds (b.add ⟨s, 0⟩) outer rest

/-- The set in brackets at the start of a text, behind the opening one, and what is left of it. -/
def read (f : Flags) (text : List Char) : Option (Nested × List Char) :=
  (start f text).bind fun (b, rest) => readItems f text.length b [] rest

/-! ### Unit tests: sets in brackets -/

example : read .plain ['^', '-', 'a', ']', '+'] =
    some (⟨CharSet.compl (.union (.single '-') (.single 'a')), 2⟩, ['+']) := by decide

example : read .plain ("a-z&&[^aeiou]]".toList) =
    some (⟨CharSet.diff .lower (.ofRanges ("aeiou".toList.map fun c => (c.toNat, c.toNat))), 4⟩, [])
    := by decide

-- What seems to follow a minus sign may be in a comment.
example : (read { Flags.plain with spaced := true } "+- #]\n9]".toList).map (·.1.set) =
    some (.union (.single '+') (.union (.single '-') (.single '9'))) := by decide

end Bracket

end ChipEight.Pattern
