import ChipEight.Pattern.Basic
import ChipEight.Pattern.Slots
import ChipEight.Text.Utf8

namespace ChipEight.Pattern

/-!
# Sizes — what the automata of a pattern take

A pattern stands for two automata over bytes, of which one reads forward and the other backward. An
automaton has states, which take thirty-two bytes each; a state with arcs to choose from takes eight
bytes more for each, and one with mere links four more for each. States are numbered in the order in
which they are made. What the states do is not kept here, but a pattern is only of use if both
automata fit, so it is counted what they take.

States that read the same may be one state. They are looked up in a table that forgets, and which of
them are forgotten depends on their numbers: the same set may take more or less at another place.

* `Direction` — the two automata;
* `stateSize`, `arcSize`, `linkSize`, `sizeLimit` — what their pieces take, and what they may take;
* `Build`, `Build.grow`, `Build.within?` — an automaton that is being made;
* `setReader` — the automaton with a set of characters;
* `textTree` — what a choice between texts takes, which share what they have in common in front;
* `build` — the automaton with a pattern;
* `fits` — whether both automata of a pattern fit.
-/

/-- How an automaton reads. -/
inductive Direction where
  | forward
  | backward
deriving DecidableEq, Repr

/-- What a state takes. -/
abbrev stateSize : Nat := 32

/-- What an arc takes, on top of its state. -/
abbrev arcSize : Nat := 8

/-- What a link takes, on top of its state. -/
abbrev linkSize : Nat := 4

/-- What an automaton may take. -/
abbrev sizeLimit : Nat := 10485760

/-! ### Automata that are being made -/

/-- An automaton that is being made. -/
structure Build where
  /-- How many states there are, which is the number of the next one. -/
  states : Nat
  /-- What the arcs and the links take. -/
  extra : Nat
deriving DecidableEq, Repr

namespace Build

/-- An automaton without a state. -/
def start : Build where
  states := 0
  extra := 0

/-- What an automaton takes. -/
def size (b : Build) : Nat :=
  stateSize * b.states + b.extra

/-- The automaton with more states, arcs and links. -/
def grow (b : Build) (states arcs links : Nat) : Build where
  states := b.states + states
  extra := b.extra + arcSize * arcs + linkSize * links

/-- The automaton with all that another has. -/
def plus (b c : Build) : Build where
  states := b.states + c.states
  extra := b.extra + c.extra

/-- An automaton that fits. -/
def within? (b : Build) : Option Build :=
  if b.size ≤ sizeLimit then some b else none

/-- What some things take together. -/
def together {α : Type} (things : List α) (one : α → Build) : Build :=
  things.foldl (fun b x => b.plus (one x)) start

/-- The automaton after a number of equal steps, as long as it fits. -/
def repeatedly (step : Build → Option Build) : Nat → Build → Option Build
  | 0, b => some b
  | n + 1, b => (step b).bind (repeatedly step n)

end Build

/-! ### Sets -/

/-- The byte ranges that some spans start with, each with what follows it in them. -/
def branches : List Utf8.Span → List ((Nat × Nat) × List Utf8.Span)
  | [] => []
  | [] :: rest => branches rest
  | (r :: span) :: rest =>
    match branches rest with
    | (s, spans) :: others =>
      if r = s then (s, span :: spans) :: others else (r, [span]) :: (s, spans) :: others
    | [] => [(r, [span])]

/-- A state that reads some spans forward, for so many bytes, and goes on to `last`: its number, and
the automaton and the table with it. The table tells which states have the same arcs. -/
def spanReader (last : Nat) : Nat → List Utf8.Span → Build × Slots → Nat × Build × Slots
  | 0, _, known => (last, known)
  | n + 1, spans, known =>
    if spans.all (·.isEmpty) then
      (last, known)
    else
      let (arcs, b, t) := (branches spans).foldl
        (fun (arcs, known) ((lo, hi), behind) =>
          let (next, known) := spanReader last n behind known
          (arcs ++ [lo, hi, next], known))
        (([] : List Nat), known)
      match t.find? arcs with
      | some state => (state, b, t)
      | none => (b.states, b.grow 1 (arcs.length / 3) 0, t.put arcs b.states)

/-- The states that read a span backward and go on to `last`, and a link to the one that reads
first. The table tells which states read the same and go on to the same. -/
def addSpan (last : Nat) (known : Build × Slots) (span : Utf8.Span) : Build × Slots :=
  let (_, b, t) := span.foldl
    (fun (next, b, t) (lo, hi) =>
      match Slots.find? t [next, lo, hi] with
      | some state => (state, b, t)
      | none => (b.states, Build.grow b 1 0 0, t.put [next, lo, hi] b.states))
    (last, known)
  (b.grow 0 0 1, t)

/-- The automaton with a set. -/
def setReader (d : Direction) (s : CharSet) (b : Build) : Build :=
  if s.isAscii then
    b.grow 2 s.ranges.length 0
  else
    let spans := s.ranges.flatMap fun r => Utf8.spans r.1 r.2
    match d with
    | .forward => (spanReader b.states 4 spans (b.grow 1 0 0, .cleared 10000)).2.1
    | .backward => (spans.foldl (addSpan (b.states + 1)) (b.grow 2 0 0, .cleared 1000)).1

/-! ### Choices between texts -/

/-- The bytes of a text in the order in which they are read. -/
def bytes (d : Direction) (cs : List Char) : List UInt8 :=
  match d with
  | .forward => cs.flatMap String.utf8EncodeChar
  | .backward => (cs.flatMap String.utf8EncodeChar).reverse

/-- What the states take that some words lead to from one state on, for so many bytes. Where a word
ends, the words behind it have a state of their own. -/
def tree : Nat → List (List UInt8) → Build
  | 0, _ => .start
  | n + 1, words =>
    if words.all (·.isEmpty) then
      .start
    else
      let rest := words.dropWhile (·.isEmpty)
      let chunks := List.splitOn [] (if rest.length < words.length then [] :: rest else rest)
      let chunkTree (chunk : List (List UInt8)) :=
        let heads := (chunk.filterMap List.head?).eraseDups
        let own := match heads with
          | [] => Build.start
          | [_] => Build.start.grow 1 0 1
          | several => Build.start.grow 1 several.length 1
        own.plus <| .together heads fun b =>
          tree n ((chunk.filter (·.head? == some b)).map List.tail)
      (Build.start.grow 1 0 (chunks.length - 1)).plus (.together chunks chunkTree)

/-- The texts that a pattern chooses from, if it chooses from texts only. -/
def texts? : Pattern → Option (List (List Char))
  | text cs => some [cs]
  | either p q => p.texts?.bind fun some => q.texts?.map fun others => some ++ others
  | _ => none

/-- What a choice between texts takes. -/
def textTree (d : Direction) (texts : List (List Char)) : Build :=
  let words := texts.map (bytes d)
  (Build.start.grow 1 0 0).plus (tree ((words.map List.length).foldl max 0 + 1) words)

/-! ### Patterns -/

/-- The place of a pattern in a choice. -/
inductive Role where
  /-- In no choice, or first in one. -/
  | alone
  /-- Behind the first one. -/
  | second
  /-- Behind the second one. -/
  | later
deriving DecidableEq, Repr

/-- The automaton with an alternative linked to the others. The state that links them and the one
that they lead to are made behind the second. -/
def Role.linked? (role : Role) (b : Build) : Option Build :=
  match role with
  | alone => b.within?
  | second => (b.grow 2 0 2).within?
  | later => (b.grow 0 0 1).within?

/-- The automaton with a repetition. `once` makes what is repeated, which takes a character for sure
or not. -/
def repeat? (once : Build → Option Build) (takes : Bool) (least : Nat) (most : Option Nat)
    (b : Build) : Option Build :=
  let forked (b : Build) : Build := b.grow 1 0 2
  match least, most with
  | 0, some 1 => (once (forked b)).map (·.grow 1 0 0)
  | 0, none => if takes then once (forked b) else (once b).map (·.grow 3 0 4)
  | n, none => (Build.repeatedly once n b).map forked
  | 0, some m =>
    Build.repeatedly (fun b => once (forked b)) m (b.grow 2 0 0)
  | n, some m =>
    (Build.repeatedly once n b).bind fun b =>
      if n = m then some b else
        Build.repeatedly (fun b => once (forked b)) (m - n) (b.grow 1 0 0)

/-- The automaton with a pattern, if it fits. -/
def build (d : Direction) (role : Role) (p : Pattern) (b : Build) : Option Build :=
  match p with
  | empty => role.linked? (b.grow 1 0 0)
  | text cs => role.linked? (b.grow (bytes d cs).length 0 0)
  | set s _ => role.linked? (setReader d s b)
  | edge _ => role.linked? (b.grow 1 0 0)
  | group _ p =>
    match d with
    | .forward => (build d .alone p (b.grow 1 0 0)).bind fun b => role.linked? (b.grow 1 0 0)
    | .backward => (build d .alone p b).bind role.linked?
  | repeated p least most _ =>
    (repeat? (build d .alone p) (p.least?.any (0 < ·)) least most b).bind role.linked?
  | join p q =>
    match d with
    | .forward => (build d .alone p b).bind fun b => (build d .alone q b).bind role.linked?
    | .backward => (build d .alone q b).bind fun b => (build d .alone p b).bind role.linked?
  | either p q =>
    match role with
    | .alone =>
      match texts? (either p q) with
      | some texts => (b.plus (textTree d texts)).within?
      | none => (build d .alone p b).bind (build d .second q)
    | .second => ((build d .alone p b).bind Role.second.linked?).bind (build d .later q)
    | .later => ((build d .alone p b).bind Role.later.linked?).bind (build d .later q)

/-- Whether every match starts where the text starts. -/
def startsText : Pattern → Bool
  | edge .textFirst => true
  | group _ p => p.startsText
  | repeated p least _ _ => decide (0 < least) && p.startsText
  | join p q => p.startsText || (p.takesNothing && q.startsText)
  | either p q => p.startsText && q.startsText
  | _ => false

/-- Whether every match ends where the text ends. -/
def endsText : Pattern → Bool
  | edge .textLast => true
  | group _ p => p.endsText
  | repeated p least _ _ => decide (0 < least) && p.endsText
  | join p q => q.endsText || (q.takesNothing && p.endsText)
  | either p q => p.endsText && q.endsText
  | _ => false

/-- The whole automaton. In front of the pattern it passes over any bytes, unless a match has to
start where it starts, and forward it tells the whole match apart. -/
def automaton? (d : Direction) (p : Pattern) : Option Build :=
  let held := match d with
    | .forward => p.startsText
    | .backward => p.endsText
  let front := if held then Build.start.grow 1 0 0 else Build.start.grow 3 1 2
  (build d .alone (group 0 p) front).bind fun b => (b.grow 1 0 0).within?

/-- Whether both automata fit. -/
def fits (p : Pattern) : Bool :=
  (automaton? .forward p).isSome && (automaton? .backward p).isSome

/-! ### Unit tests: sizes -/

-- Any character of a line: nine states forward, thirty backward, if none is forgotten.
example : setReader .forward (CharSet.single '\n').compl .start = ⟨9, 17 * 8⟩
    ∧ setReader .backward (CharSet.single '\n').compl .start = ⟨30, 10 * 4⟩ := by decide +kernel

-- Three states for the first texts, which start with the same character, and one for the end.
example : textTree .forward [['a', 'b'], ['a', 'c']] = ⟨5, 4 + 4 + 16⟩ := by decide

example : (automaton? .forward (repeated (text ['z']) 3 none false)).map (·.size) =
    some (112 + 32 + 3 * 32 + 40 + 64) := by decide

end ChipEight.Pattern
