import ChipEight.Pattern.Reader
import ChipEight.Proofs.Pattern.Search

namespace ChipEight.Pattern

/-!
# Plain texts — a text without signs is looked for as it is

Twelve characters mean something else than themselves in the text of a pattern. A text without them
is read one character after the other, and the characters are put together again, so that the lines
with a match are those that hold the text. A very long one is refused.

* `isSign` — the characters that mean something else;
* `fits_text` — the texts that are not too long;
* `ofText?_of_plain`, `found_text_iff` — plain texts as patterns, and the lines that have a match.
-/

/-- The characters that mean something else than themselves. -/
def isSign (c : Char) : Bool :=
  ['|', '(', ')', '?', '*', '+', '{', '[', '\\', '.', '^', '$'].contains c

variable {cs rest : List Char} {c : Char} {r : Reading}

/-! ### Reading -/

theorem skip_plain (cs : List Char) : Flags.plain.skip cs = cs := by
  cases cs <;> rfl

theorem next_of_plain (hr : r.group.flags = .plain) (hc : isSign c = false) :
    r.next c rest = some (r.addLeaf (text [c]) rest) := by
  rw [Reading.next, hr]
  · rfl
  all_goals
    rintro rfl
    cases hc

/-- Plain characters become parts of the group, one by one. -/
theorem run_of_plain {rounds : Nat} (hrounds : r.rest.length < rounds)
    (hr : r.group.flags = .plain) (houter : r.outer = []) (h : ∀ c ∈ r.rest, isSign c = false) :
    r.run rounds = some
      { r.group with
        parts := (r.rest.map fun c => Part.leaf (text [c])).reverse ++ r.group.parts }.content := by
  induction rounds generalizing r with
  | zero => exact absurd hrounds (Nat.not_lt_zero _)
  | succ rounds ih =>
    rw [Reading.run, hr, skip_plain]
    cases hrest : r.rest with
    | nil => simp [houter]
    | cons c rest =>
      rw [hrest] at hrounds h
      simp only [next_of_plain hr (h c List.mem_cons_self), Option.bind_some]
      rw [ih (r := r.addLeaf (text [c]) rest) (Nat.lt_of_succ_lt_succ hrounds) hr houter
        fun d hd => h d (List.mem_cons_of_mem c hd)]
      simp [Reading.addLeaf, Reading.add, Group.add]

theorem foldr_prepend_text (c : Char) (cs : List Char) :
    ((c :: cs).map fun c => text [c]).foldr prepend [] = [text (c :: cs)] := by
  induction cs generalizing c with
  | nil => rfl
  | cons d rest ih =>
    rw [List.map_cons, List.foldr_cons, ih]
    rfl

/-- Single characters one after another are one text. -/
theorem concat_chars (c : Char) (cs : List Char) :
    concat ((c :: cs).map fun c => text [c]) = text (c :: cs) := by
  have hparts : ∀ cs : List Char,
      (cs.map fun c => text [c]).flatMap parts = cs.map fun c => text [c] := by
    intro cs
    induction cs with
    | nil => rfl
    | cons c rest ih => rw [List.map_cons, List.flatMap_cons, ih]; rfl
  rw [concat, hparts, foldr_prepend_text]
  rfl

/-- The pattern of a text, which may be empty. -/
def ofPlain : List Char → Pattern
  | [] => empty
  | cs => text cs

/-- Single characters as parts are one text, with few of them no deeper than with many. -/
theorem sequence_chars (cs : List Char) :
    (Part.sequence (cs.map fun c => Part.leaf (text [c]))).pattern = ofPlain cs
      ∧ (Part.sequence (cs.map fun c => Part.leaf (text [c]))).depth ≤ 1 := by
  match cs with
  | [] => exact ⟨rfl, Nat.zero_le 1⟩
  | [c] => exact ⟨rfl, Nat.zero_le 1⟩
  | c :: d :: rest =>
    constructor
    · have hmap : ((c :: d :: rest).map fun c => Part.leaf (text [c])).map (·.pattern)
          = (c :: d :: rest).map fun c => text [c] := by
        rw [List.map_map]
        rfl
      exact (congrArg concat hmap).trans (concat_chars c (d :: rest))
    · have hdeepest : ∀ cs : List Char,
          ((cs.map fun c => Part.leaf (text [c])).map (·.depth)).foldl max 0 = 0 := by
        intro cs
        induction cs with
        | nil => rfl
        | cons c rest ih => exact ih
      exact Nat.succ_le_succ (Nat.le_of_eq (hdeepest (c :: d :: rest)))

/-! ### Sizes -/

/-- How many bytes a text takes. -/
def byteCount (cs : List Char) : Nat :=
  (cs.flatMap String.utf8EncodeChar).length

theorem length_bytes (d : Direction) (cs : List Char) : (bytes d cs).length = byteCount cs := by
  cases d with
  | forward => rfl
  | backward => exact List.length_reverse

/-- An automaton that grows and fits did fit before. -/
theorem within?_grow (b : Build) (states arcs links : Nat) :
    (b.within?.bind fun b => (b.grow states arcs links).within?)
      = (b.grow states arcs links).within? := by
  by_cases h : b.size ≤ sizeLimit
  · rw [Build.within?, if_pos h]
    rfl
  · have hgrown : ¬ (b.grow states arcs links).size ≤ sizeLimit := by
      simp only [Build.grow, Build.size, stateSize, arcSize, linkSize] at h ⊢
      omega
    rw [Build.within?, if_neg h, Build.within?, if_neg hgrown]
    rfl

theorem within?_within? (b : Build) : b.within?.bind Build.within? = b.within? := by
  by_cases h : b.size ≤ sizeLimit
  · rw [Build.within?, if_pos h]
    exact if_pos h
  · rw [Build.within?, if_neg h]
    rfl

/-- The automata of a text have a state for each byte and few others. -/
theorem fits_text (cs : List Char) : (text cs).fits = true ↔ byteCount cs ≤ 327673 := by
  -- the size is asked for at every step, but the last one decides, since automata only grow
  have halone : Role.alone.linked? = Build.within? := rfl
  have hforward : automaton? .forward (text cs) = Build.within? ⟨byteCount cs + 6, 16⟩ := by
    have hall : automaton? .forward (text cs) = Build.within?
        ((((Build.grow ⟨3, 16⟩ 1 0 0).grow (byteCount cs) 0 0).grow 1 0 0).grow 1 0 0) := by
      rw [← length_bytes .forward]
      simp only [automaton?, startsText, build, halone, within?_grow]
      rfl
    rw [hall]
    congr 1
    simp only [Build.grow, Build.mk.injEq]
    omega
  have hbackward : automaton? .backward (text cs) = Build.within? ⟨byteCount cs + 4, 16⟩ := by
    have hall : automaton? .backward (text cs)
        = ((Build.grow ⟨3, 16⟩ (byteCount cs) 0 0).grow 1 0 0).within? := by
      rw [← length_bytes .backward]
      simp only [automaton?, endsText, build, halone, within?_within?, within?_grow]
      rfl
    rw [hall]
    congr 1
    simp only [Build.grow, Build.mk.injEq]
    omega
  have hwithin : ∀ b : Build, b.within?.isSome = true ↔ b.size ≤ sizeLimit := by
    intro b
    rw [Build.within?]
    split <;> simp_all
  rw [fits, hforward, hbackward, Bool.and_eq_true, hwithin, hwithin]
  simp only [Build.size, stateSize, sizeLimit]
  omega

/-- A plain text that is not too long is the pattern of that text. -/
theorem ofText?_of_plain (hplain : ∀ c ∈ cs, isSign c = false) (hlength : byteCount cs ≤ 327673) :
    ofText? cs = some (ofPlain cs) := by
  obtain ⟨hpattern, hdepth⟩ := sequence_chars cs
  have husable : (ofPlain cs).isUsable = true := by
    cases cs with
    | nil => decide
    | cons c rest =>
      have hfits : (text (c :: rest)).fits = true := (fits_text (c :: rest)).2 hlength
      simp [isUsable, ofPlain, asksWide, hfits]
  have hread : (Reading.start cs).run (cs.length + 1)
      = some (Part.sequence (cs.map fun c => Part.leaf (text [c]))) := by
    refine (run_of_plain (Nat.lt_succ_self cs.length) rfl rfl hplain).trans ?_
    simp [Reading.start, Group.opened, Group.content, Part.choice]
  rw [ofText?, hread]
  simp only [hpattern, husable, and_true]
  rw [if_pos (Nat.le_trans hdepth (by decide))]

/-- A line has a match for a text exactly if it holds the text. -/
theorem found_ofPlain_iff {line : List Char} : (ofPlain cs).found line = true ↔ cs <:+: line := by
  have hmatches : ∀ b es a, (ofPlain cs).Matches b es a ↔ es = cs := by
    cases cs <;> exact fun b es a => Iff.rfl
  rw [found_iff]
  constructor
  · rintro ⟨b, es, a, rfl, hmatch⟩
    exact ⟨b, a, by rw [(hmatches b es a).1 hmatch]⟩
  · rintro ⟨b, a, rfl⟩
    exact ⟨b, cs, a, rfl, (hmatches b cs a).2 rfl⟩

end ChipEight.Pattern
