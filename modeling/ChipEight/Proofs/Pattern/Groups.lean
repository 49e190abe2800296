import ChipEight.Pattern.Group
import ChipEight.Proofs.Pattern.PlainForms

namespace ChipEight.Pattern

/-!
# Groups — what their parts match

A group is read part by part, and closing it puts the parts together in plain form. What comes out
matches what the parts say: a character matches itself, or either of its cases; an alternative
matches its parts, one after the other; and a group matches what one of its alternatives does.

* `Flags.matches_char?` — characters;
* `Part.matches_sequence`, `Part.matches_choice` — parts in a row, and one of some;
* `Group.Kept` — groups with sets in order, which reading leaves in order;
* `Group.matches_close`, `Group.matches_repeat?` — groups that are closed, and repeated parts.
-/

open Occurrence

/-- A character matches itself, or where cases are the same, the characters that are the same but
for the case. -/
theorem Flags.matches_char? {f : Flags} {c : Char} {p : Pattern} (h : f.char? c = some p) :
    p.Kept ∧ ∀ b cs a, p.Matches b cs a
      ↔ ∃ d, cs = [d] ∧ (d = c ∨ (f.anyCase = true ∧ d.toLower = c.toLower)) := by
  unfold char? at h
  cases hcase : f.anyCase with
  | false =>
    rw [hcase] at h
    cases h
    exact ⟨trivial, fun b cs a => by simp [Matches]⟩
  | true =>
    rw [hcase] at h
    have hkept := (CharSet.kept_single c).anyCase
    cases hwide : f.wide with
    | true => simp [hwide] at h
    | false =>
      simp only [hwide] at h
      cases h
      refine ⟨kept_ofSet hkept false, fun b cs a => ?_⟩
      rw [matches_ofSet hkept]
      refine exists_congr fun d => and_congr_right fun _ => ?_
      rw [CharSet.holds_anyCase (CharSet.kept_single c)]
      constructor
      · rintro ⟨e, he, hsame⟩
        obtain rfl := CharSet.holds_single.1 he
        exact .inr ⟨rfl, hsame.symm⟩
      · rintro (rfl | ⟨-, hsame⟩)
        · exact ⟨d, CharSet.holds_single.2 rfl, rfl⟩
        · exact ⟨c, CharSet.holds_single.2 rfl, hsame.symm⟩

/-! ### Parts -/

namespace Part

/-- Parts in a row match one after the other. -/
theorem matches_sequence (parts : List Part) :
    (sequence parts).pattern.Matches
      = Occurrence.sequence (parts.map (·.pattern.Matches)) := by
  match parts with
  | [] => rfl
  | [p] => exact (followed_nothing _).symm
  | p :: q :: rest =>
    change (Pattern.concat ((p :: q :: rest).map (·.pattern))).Matches = _
    rw [matches_concat, List.map_map]
    rfl

theorem kept_sequence {parts : List Part} (h : ∀ p ∈ parts, p.pattern.Kept) :
    (sequence parts).pattern.Kept := by
  match parts with
  | [] => trivial
  | [p] => exact h p List.mem_cons_self
  | p :: q :: rest =>
    refine kept_concat fun r hr => ?_
    obtain ⟨part, hpart, rfl⟩ := List.mem_map.1 hr
    exact h part hpart

/-- One of some parts matches what one of them does. -/
theorem matches_choice {parts : List Part} (h : ∀ p ∈ parts, p.pattern.Kept) :
    (choice parts).pattern.Matches = oneOf (parts.map (·.pattern.Matches)) := by
  have hpatterns : ∀ r ∈ parts.map (·.pattern), r.Kept := by
    intro r hr
    obtain ⟨part, hpart, rfl⟩ := List.mem_map.1 hr
    exact h part hpart
  unfold choice
  split
  case h_1 p => exact (oneOf_singleton _).symm
  case h_2 =>
    rw [Pattern.matches_choice hpatterns, List.map_map]
    rfl

theorem kept_choice {parts : List Part} (h : ∀ p ∈ parts, p.pattern.Kept) :
    (choice parts).pattern.Kept := by
  unfold choice
  split
  case h_1 p => exact h p List.mem_cons_self
  case h_2 =>
    refine Pattern.kept_choice fun r hr => ?_
    obtain ⟨part, hpart, rfl⟩ := List.mem_map.1 hr
    exact h part hpart

end Part

/-! ### Groups -/

namespace Group

/-- The sets in a group are in order. -/
structure Kept (g : Group) : Prop where
  /-- Those in front of the latest stroke. -/
  earlier : ∀ p ∈ g.earlier, p.pattern.Kept
  /-- Those since then. -/
  parts : ∀ p ∈ g.parts, p.pattern.Kept

variable {g : Group} {p : Part}

theorem kept_opened (f : Flags) (number : Option Nat) : (opened f number).Kept :=
  ⟨fun _ h => absurd h List.not_mem_nil, fun _ h => absurd h List.not_mem_nil⟩

theorem Kept.add (hg : g.Kept) (hp : p.pattern.Kept) : (g.add p).Kept :=
  ⟨hg.earlier, List.forall_mem_cons.2 ⟨hp, hg.parts⟩⟩

theorem Kept.setFlags (hg : g.Kept) (f : Flags) : (g.setFlags f).Kept :=
  ⟨hg.earlier, List.forall_mem_cons.2 ⟨trivial, hg.parts⟩⟩

/-- The latest alternative. -/
def latest (g : Group) : Part :=
  Part.sequence g.parts.reverse

theorem Kept.latest (hg : g.Kept) : g.latest.pattern.Kept :=
  Part.kept_sequence fun p hp => hg.parts p (List.mem_reverse.1 hp)

theorem Kept.stroke (hg : g.Kept) : g.stroke.Kept :=
  ⟨List.forall_mem_cons.2 ⟨hg.latest, hg.earlier⟩, fun _ h => absurd h List.not_mem_nil⟩

/-- The alternatives of a group, the latest first. -/
theorem Kept.alternatives (hg : g.Kept) :
    ∀ p ∈ (g.latest :: g.earlier).reverse, p.pattern.Kept := by
  intro p hp
  rcases List.mem_cons.1 (List.mem_reverse.1 hp) with rfl | hp
  · exact hg.latest
  · exact hg.earlier p hp

theorem Kept.content (hg : g.Kept) : g.content.pattern.Kept :=
  Part.kept_choice hg.alternatives

theorem Kept.close (hg : g.Kept) : g.close.pattern.Kept := by
  unfold Group.close
  cases g.number with
  | none => exact hg.content
  | some n => exact hg.content

/-- **A group matches what one of its alternatives does.** The latest alternative matches its parts,
one after the other. -/
theorem matches_close (hg : g.Kept) (b cs a : List Char) :
    g.close.pattern.Matches b cs a
      ↔ (∃ p ∈ g.earlier, p.pattern.Matches b cs a)
        ∨ Occurrence.sequence (g.parts.reverse.map (·.pattern.Matches)) b cs a := by
  -- a number tells a match apart, and matches nothing itself
  have hclose : g.close.pattern.Matches = g.content.pattern.Matches := by
    unfold close
    cases g.number <;> rfl
  have hcontent : g.content.pattern.Matches
      = oneOf ((g.latest :: g.earlier).reverse.map (·.pattern.Matches)) :=
    Part.matches_choice hg.alternatives
  rw [hclose, hcontent, ← Part.matches_sequence]
  constructor
  · rintro ⟨R, hR, hmatch⟩
    obtain ⟨p, hp, rfl⟩ := List.mem_map.1 hR
    rcases List.mem_cons.1 (List.mem_reverse.1 hp) with rfl | hp
    · exact .inr hmatch
    · exact .inl ⟨p, hp, hmatch⟩
  · rintro (⟨p, hp, hmatch⟩ | hmatch)
    · exact ⟨_, List.mem_map_of_mem (List.mem_reverse.2 (List.mem_cons_of_mem _ hp)), hmatch⟩
    · exact ⟨_, List.mem_map_of_mem (List.mem_reverse.2 List.mem_cons_self), hmatch⟩

/-- What a repetition makes of the latest part. The other parts are as they were. -/
theorem exists_of_repeat? {g' : Group} {least : Nat} {most : Option Nat} {marked : Bool}
    (h : g.repeat? least most marked = some g') :
    ∃ p p' rest sparing, g.parts = p :: rest ∧ g'.parts = p' :: rest ∧ g'.earlier = g.earlier
      ∧ p'.pattern = p.pattern.times least most sparing := by
  unfold repeat? at h
  split at h
  case h_1 => cases h
  case h_2 p rest hparts =>
    obtain ⟨-, heq⟩ := Option.ite_none_right_eq_some.1 h
    cases heq
    exact ⟨p, _, rest, _, hparts, rfl, rfl, rfl⟩

/-- A part that is repeated matches what a repetition of it does. -/
theorem matches_repeat? {g' : Group} {least : Nat} {most : Option Nat} {marked : Bool}
    (hbounds : ∀ m ∈ most, least ≤ m) (h : g.repeat? least most marked = some g') :
    ∃ p p' rest sparing, g.parts = p :: rest ∧ g'.parts = p' :: rest
      ∧ p'.pattern.Matches = (repeated p.pattern least most sparing).Matches := by
  obtain ⟨p, p', rest, sparing, hparts, hparts', -, hp'⟩ := exists_of_repeat? h
  exact ⟨p, p', rest, sparing, hparts, hparts', hp' ▸ matches_times hbounds sparing⟩

theorem Kept.repeat? {g' : Group} {least : Nat} {most : Option Nat} {marked : Bool} (hg : g.Kept)
    (h : g.repeat? least most marked = some g') : g'.Kept := by
  obtain ⟨p, p', rest, sparing, hparts, hparts', hearlier, hp'⟩ := exists_of_repeat? h
  obtain ⟨hp, hrest⟩ := List.forall_mem_cons.1 (hparts ▸ hg.parts)
  refine ⟨hearlier ▸ hg.earlier, hparts' ▸ List.forall_mem_cons.2 ⟨?_, hrest⟩⟩
  exact hp' ▸ kept_times hp least most sparing

end Group

end ChipEight.Pattern
