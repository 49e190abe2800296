import ChipEight.Pattern.Basic

namespace ChipEight.Pattern

/-!
# Words — texts that every match starts with

For some patterns there are a few words such that every match starts with one of them. A word is
whole if the match ends with it. If the words are whole, then a line has a match if and only if one
of the words is in it, and no automaton is asked for.

There are at most so many words, and none of them is long: words are cut off where they have to be,
and then they are whole no more. Of words that start with an earlier one nothing is to be learnt,
and a common front of all words that is rare enough is worth more than the words.

* `Word`, `Words` — words, and lists of them in the order in which matches are preferred;
* `Words.tidied`, `Words.joined`, `Words.added`, `Words.times` — words of a pattern from those of
  its parts;
* `gather`, `words` — the words of a pattern;
* `Words.reduced`, `Words.chosen` — the words that are of use;
* `wholeWords` — whether these are whole.
-/

/-! ### Words -/

/-- A text in bytes that a match starts with. -/
structure Word where
  /-- The bytes. -/
  bytes : List UInt8
  /-- Whether the match ends with them. -/
  whole : Bool
deriving DecidableEq, Repr

namespace Word

/-- The word with so many bytes at most. -/
def cut (n : Nat) (w : Word) : Word :=
  if w.bytes.length ≤ n then w else ⟨w.bytes.take n, false⟩

/-- The word with more to come. -/
def opened (w : Word) : Word :=
  { w with whole := false }

/-- A word with another behind it, if the first is whole. -/
def follow (w v : Word) : Word :=
  ⟨w.bytes ++ v.bytes, v.whole⟩

end Word

/-- The words of a pattern, the preferred ones first; none if there are too many. -/
abbrev Words := Option (List Word)

namespace Words

/-- How many words there may be. -/
abbrev maxCount : Nat := 250

/-- How many bytes a word may have. -/
abbrev maxLength : Nat := 100

/-- How often a repetition is taken into account. -/
abbrev maxTimes : Nat := 10

/-- How many characters of a set are taken into account. -/
abbrev maxChars : Nat := 10

/-- Words without doubles side by side. What is left of doubles is whole if all of them are. -/
def tidied : List Word → List Word
  | [] => []
  | w :: rest =>
    match tidied rest with
    | v :: others =>
      if w.bytes = v.bytes then ⟨w.bytes, w.whole && v.whole⟩ :: others else w :: v :: others
    | [] => [w]

/-- The word of the empty text. -/
def ofEmpty : Words :=
  some [⟨[], true⟩]

/-- Whether nothing can be learnt from what is behind the words. -/
def allOpen (ws : Words) : Bool :=
  match ws with
  | none => true
  | some ws => ws.all (!·.whole)

/-- The words with more to come. -/
def opened (ws : Words) : Words :=
  ws.map fun ws => ws.map (·.opened)

/-- The words with others behind those that are whole. -/
def joined (ws vs : Words) : Words :=
  match ws, vs with
  | none, _ => none
  | some ws, none => unbounded ws
  | some ws, some vs =>
    if maxCount < ws.length * vs.length then
      unbounded ws
    else
      some <| (tidied (ws.flatMap fun w => if w.whole then vs.map w.follow else [w])).map
        (·.cut maxLength)
where
  /-- The words with any text behind them. -/
  unbounded (ws : List Word) : Words :=
    if ws.any (·.bytes.isEmpty) then none else some ((ws.map (·.opened)).map (·.cut maxLength))

/-- The words with others besides them. If there are too many, only their first bytes are kept. -/
def added (ws vs : Words) : Words :=
  match ws, vs with
  | some ws, some vs =>
    if ws.length + vs.length ≤ maxCount then
      some (tidied (ws ++ vs))
    else
      let ws := tidied (ws.map (·.cut 4))
      let vs := tidied (vs.map (·.cut 4))
      if ws.length + vs.length ≤ maxCount then some (tidied (ws ++ vs)) else none
  | _, _ => none

/-- The words so often one behind the other. -/
def power (ws : Words) : Nat → Words
  | 0 => ofEmpty
  | n + 1 =>
    let before := power ws n
    if before.allOpen then before else before.joined ws

/-- The words of a repetition. -/
def times (ws : Words) (least : Nat) (most : Option Nat) (sparing : Bool) : Words :=
  if least = 0 then
    let once := if most = some 1 then ws else ws.opened
    if sparing then ofEmpty.added once else once.added ofEmpty
  else
    let all := ws.power (min least maxTimes)
    if most = some least ∧ least ≤ maxTimes then all else all.opened

end Words

/-! ### Words of patterns -/

/-- The words of a text. -/
def textWords (cs : List Char) : Words :=
  some [Word.cut Words.maxLength ⟨cs.flatMap String.utf8EncodeChar, true⟩]

/-- The words of a set. -/
def setWords (s : CharSet) : Words :=
  if (s.ranges.map fun r => r.2 + 1 - r.1).foldl (· + ·) 0 ≤ Words.maxChars then
    some <| s.ranges.flatMap fun r => (List.range (r.2 + 1 - r.1)).map fun n =>
      ⟨String.utf8EncodeChar (Char.ofNat (r.1 + n)), true⟩
  else
    none

/-- What the words of a pattern are put to. -/
inductive Gathered where
  /-- Words that stand in front. -/
  | behind (ws : Words)
  /-- Words that are to choose from as well. -/
  | beside (ws : Words)

/-- The words with those of a pattern. -/
def Gathered.put (g : Gathered) (vs : Words) : Words :=
  match g with
  | behind ws => if ws.allOpen then ws else ws.joined vs
  | beside ws => ws.added vs

/-- The words with those of a pattern, whose parts are put to them one by one. -/
def gather (g : Gathered) : Pattern → Words
  | empty => g.put Words.ofEmpty
  | text cs => g.put (textWords cs)
  | set s _ => g.put (setWords s)
  | edge _ => g.put Words.ofEmpty
  | group _ p => g.put (gather (.behind Words.ofEmpty) p)
  | repeated p least most sparing =>
    g.put ((gather (.behind Words.ofEmpty) p).times least most sparing)
  | join p q =>
    match g with
    | .behind ws => gather (.behind (gather (.behind ws) p)) q
    | .beside ws => ws.added (gather (.behind (gather (.behind Words.ofEmpty) p)) q)
  | either p q =>
    match g with
    | .behind ws => Gathered.put (.behind ws) (gather (.beside (gather (.beside (some [])) p)) q)
    | .beside ws => gather (.beside (gather (.beside ws) p)) q

/-- The words of a pattern. -/
def words (p : Pattern) : Words :=
  gather (.behind Words.ofEmpty) p

/-! ### Words that are of use -/

namespace Words

/-- The words that do not start with a word before them. -/
def reduced (ws : List Word) : List Word :=
  ws.foldl (fun kept w => if kept.any (·.bytes.isPrefixOf w.bytes) then kept else kept ++ [w]) []

/-- What two texts have in common in front. -/
def shared : List UInt8 → List UInt8 → List UInt8
  | b :: bs, c :: cs => if b = c then b :: shared bs cs else []
  | _, _ => []

/-- What all words have in common in front. -/
def front : List Word → List UInt8
  | [] => []
  | w :: rest => rest.foldl (fun bs v => shared bs v.bytes) w.bytes

/-- The characters of ASCII that are frequent. -/
def frequent : List Char :=
  "\n\r (),-./0129:_abcdefghilmnoprstuvxy|".toList

/-- Whether a byte is rare. -/
def isRare (b : UInt8) : Bool :=
  decide (b < 0x80) && !frequent.contains (Char.ofNat b.toNat)

/-- Whether a word is of no use, since it is nearly everywhere. -/
def isPoor (w : Word) : Bool :=
  match w.bytes with
  | [] => true
  | [b] => decide (0xC0 ≤ b) || [' ', 'e', 't'].contains (Char.ofNat b.toNat)
  | _ => false

/-- How words are shortened as long as there are many: a number of bytes to keep, and a number of
words that is not many. -/
def shortenings : List (Nat × Nat) :=
  [(5, 10), (4, 10), (3, 64), (2, 64), (1, 10)]

/-- Words, shortened as long as there are many. -/
def shortened (ws : List Word) : List (Nat × Nat) → List Word
  | [] => ws
  | (keep, few) :: rest =>
    if ws.length ≤ few then ws else shortened (reduced (ws.map (·.cut keep))) rest

/-- The words that are looked for. A common front is looked for instead if it is long, or short and
rare; and whole words give way to shorter ones if these are few and not too short. -/
def chosen (ws : List Word) : Words :=
  if ws.any (·.bytes.isEmpty) then
    none
  else
    let kept := reduced ws
    let common := front kept
    let fast := kept.all (·.whole) && decide (kept.length ≤ 16)
    if 1 < ws.length ∧ common.length ≤ 3 ∧ common.head?.any isRare then
      some (tidied (kept.map (·.cut 1)))
    else
      let kept := if 4 < common.length ∨ (1 < common.length ∧ fast = false) then
        tidied (kept.map (·.cut common.length)) else kept
      let short := shortened kept shortenings
      if kept.all (·.whole) then
        if short.any isPoor ∨ short.isEmpty ∨ short.any (·.bytes.length ≤ 2) ∨
            64 < short.length then
          some kept
        else
          some short
      else if short.any isPoor then
        none
      else
        some short

end Words

/-- Whether there are whole words such that a line has a match if it has one of them. -/
def wholeWords (p : Pattern) : Bool :=
  match (words p).bind Words.chosen with
  | none => false
  | some ws => !ws.isEmpty && ws.all (·.whole)

/-! ### Unit tests: words -/

example : words (join (text ['a']) (repeated (text ['b']) 0 (some 1) false)) =
    some [⟨[0x61, 0x62], true⟩, ⟨[0x61], true⟩] := by decide

example : wholeWords (either (text ['a']) (join (text ['a']) (repeated (text ['b']) 1 none false)))
    = true := by decide

-- The capital letter that both words start with is rare, and the small one is not.
example : wholeWords (join (text ['R']) (set (.range 'a' 'b') true)) = false
    ∧ wholeWords (join (text ['r']) (set (.range 'a' 'b') true)) = true := by decide

end ChipEight.Pattern
