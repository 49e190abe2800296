import ChipEight.Proofs.Pattern.CharSets
import ChipEight.Proofs.Pattern.Occurrence

namespace ChipEight

/-!
# Plain forms — other patterns with the same matches

Patterns are put together in a plain form: texts are joined, characters become sets, common fronts
are taken out of choices, and repetitions of nothing are cut short. None of that changes what is
matched. Texts that follow each other are the text of both, a front is followed by a choice where
each alternative starts with it, and of empty matches at one place one is as good as many.

* `Occurrence.sequence`, `Occurrence.oneOf` — some occurrences in a row, and one of some;
* `Pattern.nil_of_takesNothing`, `Pattern.least_le_length` — how much a match takes;
* `Pattern.matches_ofSet`, `Pattern.matches_concat`, `Pattern.matches_choice`,
  `Pattern.matches_times` — what the plain forms match.
-/

namespace Occurrence

/-- Some occurrences in a row. -/
def sequence (Rs : List Occurrence) : Occurrence :=
  Rs.foldr followed nothing

/-- One of some occurrences. -/
def oneOf (Rs : List Occurrence) : Occurrence :=
  fun b cs a => ∃ R ∈ Rs, R b cs a

variable {R : Occurrence} {Rs Ss : List Occurrence} {b cs a : List Char}

theorem sequence_cons (R : Occurrence) (Rs : List Occurrence) :
    sequence (R :: Rs) = R.followed (sequence Rs) :=
  rfl

theorem sequence_append (Rs Ss : List Occurrence) :
    sequence (Rs ++ Ss) = (sequence Rs).followed (sequence Ss) := by
  induction Rs with
  | nil => exact (nothing_followed _).symm
  | cons R Rs ih => rw [List.cons_append, sequence_cons, ih, sequence_cons, followed_assoc]

theorem oneOf_append (Rs Ss : List Occurrence) : oneOf (Rs ++ Ss) = (oneOf Rs).or (oneOf Ss) := by
  ext b cs a
  simp [oneOf, or, List.mem_append, or_and_right, exists_or]

theorem oneOf_cons (R : Occurrence) (Rs : List Occurrence) :
    oneOf (R :: Rs) = R.or (oneOf Rs) := by
  ext b cs a
  simp [oneOf, or]

theorem oneOf_singleton (R : Occurrence) : oneOf [R] = R := by
  ext b cs a
  simp [oneOf]

/-- What follows an occurrence can be chosen before it or behind it. -/
theorem followed_oneOf (R : Occurrence) (Ss : List Occurrence) :
    R.followed (oneOf Ss) = oneOf (Ss.map R.followed) := by
  ext b cs a
  constructor
  · rintro ⟨ds, es, hcs, hr, S, hS, hs⟩
    exact ⟨_, List.mem_map_of_mem hS, ds, es, hcs, hr, hs⟩
  · rintro ⟨_, hmem, h⟩
    obtain ⟨S, hS, rfl⟩ := List.mem_map.1 hmem
    obtain ⟨ds, es, hcs, hr, hs⟩ := h
    exact ⟨ds, es, hcs, hr, S, hS, hs⟩

/-- Of empty occurrences at one place one is as good as many. -/
theorem power_iff_of_nil (h : ∀ b cs a, R b cs a → cs = []) (n : Nat) :
    R.power n b cs a ↔ cs = [] ∧ (n = 0 ∨ R b [] a) := by
  induction n generalizing b cs with
  | zero => simp [power, nothing]
  | succ n ih =>
    constructor
    · rintro ⟨ds, es, rfl, hr, hs⟩
      obtain rfl := h _ _ _ hr
      obtain ⟨rfl, -⟩ := ih.1 hs
      exact ⟨rfl, .inr hr⟩
    · rintro ⟨rfl, hn | hr⟩
      · cases hn
      · exact ⟨[], [], rfl, hr, by simpa using ih.2 ⟨rfl, .inr hr⟩⟩

end Occurrence

namespace Pattern

open Occurrence

variable {p q : Pattern} {ps qs : List Pattern} {b cs a : List Char}

/-! ### How much a match takes -/

/-- Where every match is empty, each match is. -/
theorem nil_of_takesNothing (hp : p.takesNothing = true) (h : p.Matches b cs a) : cs = [] := by
  induction p generalizing b cs a with
  | empty => exact h
  | text t => cases hp
  | set s wide => cases hp
  | edge e => exact h.1
  | group number p ih => exact ih hp h
  | repeated p least most sparing ih =>
    obtain ⟨n, -, -, h⟩ := h
    exact ((power_iff_of_nil (fun b cs a => ih (Bool.and_eq_true_iff.1 hp).2) n).1 h).1
  | join p q ihp ihq =>
    obtain ⟨ds, es, rfl, hds, hes⟩ := h
    rw [ihp (Bool.and_eq_true_iff.1 hp).1 hds, ihq (Bool.and_eq_true_iff.1 hp).2 hes]
    rfl
  | either p q ihp ihq =>
    rcases h with h | h
    · exact ihp (Bool.and_eq_true_iff.1 hp).1 h
    · exact ihq (Bool.and_eq_true_iff.1 hp).2 h

theorem mul_le_length_of_power {R : Occurrence} {m n : Nat}
    (hm : ∀ b cs a, R b cs a → m ≤ cs.length) (h : R.power n b cs a) : m * n ≤ cs.length := by
  induction n generalizing b cs with
  | zero => exact Nat.zero_le _
  | succ n ih =>
    obtain ⟨ds, es, rfl, hr, hs⟩ := h
    have hds := hm _ _ _ hr
    have hes := ih hs
    rw [List.length_append, Nat.mul_succ]
    omega

/-- Every match takes as many characters as are known to be taken. -/
theorem least_le_length {n : Nat} (hn : p.least? = some n) (h : p.Matches b cs a) :
    n ≤ cs.length := by
  induction p generalizing n b cs a with
  | empty => cases hn; exact Nat.zero_le _
  | text t => cases hn; cases h; exact Nat.le_refl _
  | set s wide =>
    obtain ⟨c, rfl, -⟩ := h
    rw [least?] at hn
    split at hn
    · cases hn
    · cases hn; exact Nat.le_refl _
  | edge e => cases hn; exact Nat.zero_le _
  | group number p ih => exact ih hn h
  | repeated p least most sparing ih =>
    obtain ⟨m, hm, rfl⟩ := Option.map_eq_some_iff.1 hn
    obtain ⟨k, hk, -, h⟩ := h
    exact Nat.le_trans (Nat.mul_le_mul_left m hk)
      (mul_le_length_of_power (fun b cs a => ih hm) h)
  | join p q ihp ihq =>
    obtain ⟨m, hm, hn⟩ := Option.bind_eq_some_iff.1 hn
    obtain ⟨k, hk, rfl⟩ := Option.map_eq_some_iff.1 hn
    obtain ⟨ds, es, rfl, hds, hes⟩ := h
    rw [List.length_append]
    exact Nat.add_le_add (ihp hm hds) (ihq hk hes)
  | either p q ihp ihq =>
    obtain ⟨m, hm, hn⟩ := Option.bind_eq_some_iff.1 hn
    obtain ⟨k, hk, rfl⟩ := Option.map_eq_some_iff.1 hn
    rcases h with h | h
    · exact Nat.le_trans (Nat.min_le_left m k) (ihp hm h)
    · exact Nat.le_trans (Nat.min_le_right m k) (ihq hk h)

/-! ### Sets -/

/-- The sets in a pattern are in order. -/
def Kept : Pattern → Prop
  | set s _ => s.Kept
  | group _ p => p.Kept
  | repeated p _ _ _ => p.Kept
  | join p q => p.Kept ∧ q.Kept
  | either p q => p.Kept ∧ q.Kept
  | _ => True

/-- A set of a single character holds that one and no other. -/
theorem holds_iff_of_single {s : CharSet} (hs : s.Kept) {c : Char} (h : s.single? = some c)
    (d : Char) : s.holds d = true ↔ d = c := by
  obtain ⟨ranges⟩ := s
  rw [CharSet.single?] at h
  split at h
  case h_1 first last hranges =>
    split at h
    case isTrue heq =>
      cases h
      subst heq
      obtain rfl : ranges = [(first, first)] := hranges
      obtain ⟨-, ⟨hvalid, -⟩, -⟩ := hs
      rw [CharSet.holds, CharSet.covers_cons, CharSet.covers_nil, ← Char.toNat_inj,
        CharSet.toNat_ofNat hvalid]
      simp
      omega
    case isFalse => cases h
  case h_2 => cases h

/-- A set of one character is a text, and one without a character has no match. -/
theorem matches_ofSet {s : CharSet} (hs : s.Kept) (wide : Bool) :
    (ofSet s wide).Matches = (set s wide).Matches := by
  ext b cs a
  rw [ofSet]
  split
  case h_1 c hsingle =>
    simp only [Matches, holds_iff_of_single hs hsingle]
    simp
  case h_2 =>
    split
    case isTrue hempty =>
      obtain ⟨ranges⟩ := s
      obtain rfl : ranges = [] := List.isEmpty_iff.1 hempty
      rfl
    case isFalse => rfl

theorem kept_ofSet {s : CharSet} (hs : s.Kept) (wide : Bool) : (ofSet s wide).Kept := by
  rw [ofSet]
  split
  case h_1 => trivial
  case h_2 =>
    split
    case isTrue => exact (trivial : CharSet.KeptFrom 0 [])
    case isFalse => exact hs

/-! ### Patterns one after another -/

theorem matches_parts (p : Pattern) : sequence (p.parts.map Matches) = p.Matches := by
  induction p with
  | empty => rfl
  | join p q _ ih => rw [parts, List.map_cons, sequence_cons, ih]; rfl
  | _ => exact followed_nothing _

theorem matches_ofParts (ps : List Pattern) :
    (ofParts ps).Matches = sequence (ps.map Matches) := by
  induction ps with
  | nil => rfl
  | cons p rest ih =>
    cases rest with
    | nil => exact (followed_nothing _).symm
    | cons q rest =>
      change p.Matches.followed (ofParts (q :: rest)).Matches = _
      rw [ih]
      rfl

/-- Texts that follow each other are the text of both. -/
theorem text_followed_text (t u : List Char) :
    (text t).Matches.followed (text u).Matches = (text (t ++ u)).Matches := by
  ext b cs a
  simp [Occurrence.followed, Matches]

theorem matches_prepend (p : Pattern) (rest : List Pattern) :
    sequence ((prepend p rest).map Matches) = p.Matches.followed (sequence (rest.map Matches)) := by
  unfold prepend
  split
  case h_1 t u rest =>
    rw [List.map_cons, List.map_cons, sequence_cons, sequence_cons, ← text_followed_text,
      followed_assoc]
  case h_2 => rfl

/-- Patterns one after another match what follows each other. -/
theorem matches_concat (ps : List Pattern) :
    (concat ps).Matches = sequence (ps.map Matches) := by
  have hfold : ∀ qs : List Pattern,
      sequence ((qs.foldr prepend []).map Matches) = sequence (qs.map Matches) := by
    intro qs
    induction qs with
    | nil => rfl
    | cons q rest ih => rw [List.foldr_cons, matches_prepend, ih]; rfl
  rw [concat, matches_ofParts, hfold]
  induction ps with
  | nil => rfl
  | cons p rest ih =>
    rw [List.flatMap_cons, List.map_append, sequence_append, matches_parts, ih]
    rfl

/-! ### Choices -/

theorem matches_never : never.Matches = oneOf [] := by
  ext b cs a
  simp [never, Matches, oneOf]

theorem matches_alternatives (p : Pattern) : oneOf (p.alternatives.map Matches) = p.Matches := by
  induction p with
  | either p q _ ih =>
    rw [alternatives, List.map_cons, oneOf_cons, ih]
    rfl
  | _ => exact oneOf_singleton _

theorem oneOf_flatMap_alternatives (ps : List Pattern) :
    oneOf ((ps.flatMap alternatives).map Matches) = oneOf (ps.map Matches) := by
  induction ps with
  | nil => rfl
  | cons p rest ih =>
    rw [List.flatMap_cons, List.map_append, oneOf_append, matches_alternatives, ih, List.map_cons,
      oneOf_cons]

theorem matches_ofAlternatives (ps : List Pattern) :
    (ofAlternatives ps).Matches = oneOf (ps.map Matches) := by
  induction ps with
  | nil => exact matches_never
  | cons p rest ih =>
    cases rest with
    | nil => exact (oneOf_singleton _).symm
    | cons q rest =>
      change p.Matches.or (ofAlternatives (q :: rest)).Matches = _
      rw [ih]
      exact (oneOf_cons _ _).symm

/-- The union of some sets holds what one of them holds. -/
theorem holds_foldl_union {sets : List CharSet} {s : CharSet} (hs : s.Kept)
    (hsets : ∀ t ∈ sets, t.Kept) :
    (sets.foldl .union s).Kept ∧ ∀ c, (sets.foldl .union s).holds c = true
      ↔ s.holds c = true ∨ ∃ t ∈ sets, t.holds c = true := by
  induction sets generalizing s with
  | nil => exact ⟨hs, by simp⟩
  | cons t rest ih =>
    have ht := hsets t List.mem_cons_self
    obtain ⟨hkept, hholds⟩ := ih (hs.union ht) fun u hu => hsets u (List.mem_cons_of_mem t hu)
    refine ⟨hkept, fun c => ?_⟩
    rw [List.foldl_cons, hholds, CharSet.holds_union hs ht]
    simp [or_assoc]

theorem mem_of_mapM {f : Pattern → Option CharSet} {sets : List CharSet}
    (h : ps.mapM f = some sets) (t : CharSet) : t ∈ sets ↔ ∃ p ∈ ps, f p = some t := by
  induction ps generalizing sets with
  | nil =>
    cases h
    simp
  | cons p rest ih =>
    rw [List.mapM_cons] at h
    obtain ⟨s, hs, h⟩ := Option.bind_eq_some_iff.1 h
    obtain ⟨others, hothers, h⟩ := Option.bind_eq_some_iff.1 h
    cases h
    simp [ih hothers, hs, eq_comm]

theorem exists_of_mapM {f : Pattern → Option CharSet} {sets : List CharSet}
    (h : ps.mapM f = some sets) (hp : p ∈ ps) : ∃ t, f p = some t := by
  induction ps generalizing sets with
  | nil => cases hp
  | cons q rest ih =>
    rw [List.mapM_cons] at h
    obtain ⟨s, hs, h⟩ := Option.bind_eq_some_iff.1 h
    obtain ⟨others, hothers, h⟩ := Option.bind_eq_some_iff.1 h
    rcases List.mem_cons.1 hp with rfl | hp
    · exact ⟨s, hs⟩
    · exact ih hothers hp

/-- Patterns that are sets, one each, have a union in order. -/
theorem kept_union {f : Pattern → Option CharSet} {sets : List CharSet}
    (hf : ∀ p ∈ ps, ∀ s, f p = some s → s.Kept) (h : ps.mapM f = some sets) :
    (sets.foldl CharSet.union .empty).Kept
      ∧ ∀ c, (sets.foldl CharSet.union .empty).holds c = true ↔ ∃ t ∈ sets, t.holds c = true := by
  have hsets : ∀ t ∈ sets, t.Kept := by
    intro t ht
    obtain ⟨p, hp, hpt⟩ := (mem_of_mapM h t).1 ht
    exact hf p hp t hpt
  obtain ⟨hkept, hholds⟩ := holds_foldl_union (s := .empty) trivial hsets
  exact ⟨hkept, fun c => (hholds c).trans (by simp)⟩

/-- Patterns that are sets, one each, match one character of the union. -/
theorem matches_union {f : Pattern → Option CharSet} {sets : List CharSet}
    (hf : ∀ p ∈ ps, ∀ s, f p = some s →
      s.Kept ∧ ∀ b cs a, p.Matches b cs a ↔ ∃ c, cs = [c] ∧ s.holds c = true)
    (h : ps.mapM f = some sets) (wide : Bool) :
    (ofSet (sets.foldl .union .empty) wide).Matches = oneOf (ps.map Matches) := by
  obtain ⟨hkept, hholds⟩ := kept_union (fun p hp s hs => (hf p hp s hs).1) h
  rw [matches_ofSet hkept]
  ext b cs a
  constructor
  · rintro ⟨c, rfl, hc⟩
    obtain ⟨t, ht, hc⟩ := (hholds c).1 hc
    obtain ⟨p, hp, hpt⟩ := (mem_of_mapM h t).1 ht
    exact ⟨_, List.mem_map_of_mem hp, ((hf p hp t hpt).2 b [c] a).2 ⟨c, rfl, hc⟩⟩
  · rintro ⟨_, hR, hmatch⟩
    obtain ⟨p, hp, rfl⟩ := List.mem_map.1 hR
    obtain ⟨t, hpt⟩ := exists_of_mapM h hp
    obtain ⟨c, rfl, hc⟩ := ((hf p hp t hpt).2 b cs a).1 hmatch
    exact ⟨c, rfl, (hholds c).2 ⟨t, (mem_of_mapM h t).2 ⟨p, hp, hpt⟩, hc⟩⟩

theorem matches_of_charSet {s : CharSet} (h : p.charSet? = some s) :
    s.Kept ∧ ∀ b cs a, p.Matches b cs a ↔ ∃ c, cs = [c] ∧ s.holds c = true := by
  unfold charSet? at h
  split at h
  case h_1 c =>
    cases h
    exact ⟨CharSet.kept_single c, fun b cs a => by simp [Matches, CharSet.holds_single]⟩
  case h_2 => cases h

theorem matches_of_set {s : CharSet} (hp : p.Kept) (h : p.set? = some s) :
    s.Kept ∧ ∀ b cs a, p.Matches b cs a ↔ ∃ c, cs = [c] ∧ s.holds c = true := by
  unfold set? at h
  split at h
  case h_1 =>
    cases h
    exact ⟨hp, fun b cs a => Iff.rfl⟩
  case h_2 => cases h

theorem matches_pick (hps : ∀ p ∈ ps, p.Kept) : (pick ps).Matches = oneOf (ps.map Matches) := by
  unfold pick
  split
  case h_1 => exact matches_ofAlternatives []
  case h_2 p => exact matches_ofAlternatives [p]
  case h_3 =>
    split
    case h_1 sets _ h => exact matches_union (fun p _ s hs => matches_of_charSet hs) h true
    case h_2 sets _ h => exact matches_union (fun p hp s hs => matches_of_set (hps p hp) hs) h true
    case h_3 => exact matches_ofAlternatives _

theorem kept_ofAlternatives (hps : ∀ p ∈ ps, p.Kept) : (ofAlternatives ps).Kept := by
  induction ps with
  | nil => exact (trivial : CharSet.KeptFrom 0 [])
  | cons p rest ih =>
    have hrest := ih fun q hq => hps q (List.mem_cons_of_mem p hq)
    cases rest with
    | nil => exact hps p List.mem_cons_self
    | cons q rest => exact ⟨hps p List.mem_cons_self, hrest⟩

theorem kept_pick (hps : ∀ p ∈ ps, p.Kept) : (pick ps).Kept := by
  unfold pick
  split
  case h_1 => exact kept_ofAlternatives hps
  case h_2 => exact kept_ofAlternatives hps
  case h_3 =>
    split
    case h_1 h => exact kept_ofSet (kept_union (fun p _ s hs => (matches_of_charSet hs).1) h).1 true
    case h_2 h =>
      exact kept_ofSet (kept_union (fun p hp s hs => (matches_of_set (hps p hp) hs).1) h).1 true
    case h_3 => exact kept_ofAlternatives hps

/-! ### Common fronts -/

theorem sharedFront_leads (ps qs : List Pattern) :
    sharedFront ps qs <+: ps ∧ sharedFront ps qs <+: qs := by
  induction ps generalizing qs with
  | nil => simp [sharedFront]
  | cons p ps ih =>
    cases qs with
    | nil => simp [sharedFront]
    | cons q qs =>
      rw [sharedFront]
      split
      case isTrue h =>
        subst h
        obtain ⟨hp, hq⟩ := ih qs
        exact ⟨List.cons_prefix_cons.2 ⟨rfl, hp⟩, List.cons_prefix_cons.2 ⟨rfl, hq⟩⟩
      case isFalse => exact ⟨List.nil_prefix, List.nil_prefix⟩

/-- All alternatives start with their common front. -/
theorem commonFront_leads (hq : q ∈ ps) : commonFront ps <+: q.parts := by
  have hfold : ∀ (qs : List Pattern) (front : List Pattern),
      qs.foldl (fun front q => sharedFront front q.parts) front <+: front
        ∧ ∀ q ∈ qs, qs.foldl (fun front q => sharedFront front q.parts) front <+: q.parts := by
    intro qs
    induction qs with
    | nil => exact fun front => ⟨List.prefix_refl front, by simp⟩
    | cons q rest ih =>
      intro front
      obtain ⟨hfront, hrest⟩ := ih (sharedFront front q.parts)
      obtain ⟨hleft, hright⟩ := sharedFront_leads front q.parts
      refine ⟨hfront.trans hleft, fun r hr => ?_⟩
      rcases List.mem_cons.1 hr with rfl | hr
      · exact hfront.trans hright
      · exact hrest r hr
  cases ps with
  | nil => cases hq
  | cons p rest =>
    rw [commonFront]
    split
    case isTrue =>
      obtain ⟨hfront, hrest⟩ := hfold rest p.parts
      rcases List.mem_cons.1 hq with rfl | hq
      · exact hfront
      · exact hrest q hq
    case isFalse => exact List.nil_prefix

theorem kept_parts (hp : p.Kept) : ∀ q ∈ p.parts, q.Kept := by
  induction p with
  | empty => simp [parts]
  | join p q _ ih =>
    intro r hr
    rcases List.mem_cons.1 hr with rfl | hr
    · exact hp.1
    · exact ih hp.2 r hr
  | _ =>
    intro r hr
    obtain rfl := List.mem_singleton.1 hr
    exact hp

theorem kept_ofParts (hps : ∀ p ∈ ps, p.Kept) : (ofParts ps).Kept := by
  induction ps with
  | nil => trivial
  | cons p rest ih =>
    have hrest := ih fun q hq => hps q (List.mem_cons_of_mem p hq)
    cases rest with
    | nil => exact hps p List.mem_cons_self
    | cons q rest => exact ⟨hps p List.mem_cons_self, hrest⟩

theorem kept_prepend (hp : p.Kept) (hps : ∀ p ∈ ps, p.Kept) : ∀ q ∈ prepend p ps, q.Kept := by
  unfold prepend
  split
  case h_1 t u rest =>
    intro q hq
    rcases List.mem_cons.1 hq with rfl | hq
    · trivial
    · exact hps q (List.mem_cons_of_mem _ hq)
  case h_2 =>
    intro q hq
    rcases List.mem_cons.1 hq with rfl | hq
    · exact hp
    · exact hps q hq

theorem kept_concat (hps : ∀ p ∈ ps, p.Kept) : (concat ps).Kept := by
  have hfold : ∀ qs : List Pattern, (∀ q ∈ qs, q.Kept) → ∀ q ∈ qs.foldr prepend [], q.Kept := by
    intro qs hqs
    induction qs with
    | nil => simp
    | cons q rest ih =>
      exact kept_prepend (hqs q List.mem_cons_self)
        (ih fun r hr => hqs r (List.mem_cons_of_mem q hr))
  refine kept_ofParts (hfold _ fun q hq => ?_)
  obtain ⟨p, hp, hq⟩ := List.mem_flatMap.1 hq
  exact kept_parts (hps p hp) q hq

theorem kept_alternatives (hp : p.Kept) : ∀ q ∈ p.alternatives, q.Kept := by
  induction p with
  | either p q _ ih =>
    intro r hr
    rcases List.mem_cons.1 hr with rfl | hr
    · exact hp.1
    · exact ih hp.2 r hr
  | _ =>
    intro r hr
    obtain rfl := List.mem_singleton.1 hr
    exact hp

theorem kept_flatMap_alternatives (hps : ∀ p ∈ ps, p.Kept) :
    ∀ p ∈ ps.flatMap alternatives, p.Kept := by
  intro p hp
  obtain ⟨q, hq, hp⟩ := List.mem_flatMap.1 hp
  exact kept_alternatives (hps q hq) p hp

/-- What is behind so many parts of each of some patterns, as alternatives. -/
theorem kept_rests (hps : ∀ p ∈ ps, p.Kept) (n : Nat) :
    ∀ q ∈ ps.map fun p => concat (p.parts.drop n), q.Kept := by
  intro q hq
  obtain ⟨p, hp, rfl⟩ := List.mem_map.1 hq
  exact kept_concat fun r hr => kept_parts (hps p hp) r (List.mem_of_mem_drop hr)

/-- A front, and a choice between what is behind it in each of some patterns. -/
theorem matches_front {front : List Pattern} (hps : ∀ p ∈ ps, p.Kept)
    (hfront : ∀ p ∈ ps, front <+: p.parts) :
    (concat (front ++ [pick ((ps.map fun p => concat (p.parts.drop front.length)).flatMap
      alternatives)])).Matches = oneOf (ps.map Matches) := by
  have hrests := kept_rests hps front.length
  have hbehind : ∀ p ∈ ps, (sequence (front.map Matches)).followed
      (concat (p.parts.drop front.length)).Matches = p.Matches := by
    intro p hp
    rw [matches_concat, ← sequence_append, ← List.map_append,
      List.prefix_iff_eq_append.1 (hfront p hp), matches_parts]
  rw [matches_concat, List.map_append, sequence_append, List.map_singleton, sequence_cons,
    show sequence [] = nothing from rfl, followed_nothing,
    matches_pick (kept_flatMap_alternatives hrests), oneOf_flatMap_alternatives, followed_oneOf,
    List.map_map, List.map_map]
  exact congrArg oneOf (List.map_congr_left hbehind)

/-- A choice matches what one of the patterns does. -/
theorem matches_choice (hps : ∀ p ∈ ps, p.Kept) : (choice ps).Matches = oneOf (ps.map Matches) := by
  have hkept := kept_flatMap_alternatives hps
  -- a choice in a choice is laid open first
  rw [← oneOf_flatMap_alternatives]
  unfold choice
  split
  case h_1 p h =>
    rw [h]
    exact (oneOf_singleton _).symm
  case h_2 all _ =>
    split
    case h_1 => exact matches_pick hkept
    case h_2 front _ =>
      exact matches_front hkept fun p hp => commonFront_leads hp

theorem kept_choice (hps : ∀ p ∈ ps, p.Kept) : (choice ps).Kept := by
  have hkept := kept_flatMap_alternatives hps
  unfold choice
  split
  case h_1 p h => exact hkept p (by simp [h])
  case h_2 all _ =>
    split
    case h_1 => exact kept_pick hkept
    case h_2 front _ =>
      refine kept_concat fun q hq => ?_
      rcases List.mem_append.1 hq with hq | hq
      · -- the front holds parts of the first alternative
        cases hall : ps.flatMap alternatives with
        | nil => rw [hall] at hq; cases hq
        | cons p rest =>
          have hp : p ∈ ps.flatMap alternatives := by simp [hall]
          exact kept_parts (hkept p hp) q ((commonFront_leads hp).subset hq)
      · obtain rfl := List.mem_singleton.1 hq
        exact kept_pick (kept_flatMap_alternatives (kept_rests hkept _))

/-! ### Repetitions -/

theorem kept_times (hp : p.Kept) (least : Nat) (most : Option Nat) (sparing : Bool) :
    (times p least most sparing).Kept := by
  have hplain : ∀ {least : Nat} {most : Option Nat},
      (if most = some 0 then empty
        else if least = 1 ∧ most = some 1 then p
        else repeated p least most sparing).Kept := by
    intro least most
    split
    case isTrue => trivial
    case isFalse => split <;> exact hp
  exact hplain

/-- A repetition of nothing matches nothing, where it may be left out or there is something to
match. -/
theorem matches_repeated_of_takesNothing (hp : p.takesNothing = true) {least : Nat}
    {most : Option Nat} (sparing : Bool) :
    (repeated p least most sparing).Matches b cs a
      ↔ cs = [] ∧ (least = 0 ∨ p.Matches b [] a) := by
  have hpower (n : Nat) :
      Occurrence.power p.Matches n b cs a ↔ cs = [] ∧ (n = 0 ∨ p.Matches b [] a) :=
    power_iff_of_nil (fun b cs a => nil_of_takesNothing hp) n
  constructor
  · rintro ⟨n, hle, -, hmatch⟩
    obtain ⟨hnil, hn⟩ := (hpower n).1 hmatch
    exact ⟨hnil, hn.imp_left fun hzero => by omega⟩
  · rintro ⟨hnil, hleast⟩
    refine ⟨least, Nat.le_refl least, fun m hm => Nat.le_max_left least m, ?_⟩
    exact (hpower least).2 ⟨hnil, hleast⟩

/-- A repetition in plain form matches what a repetition does. -/
theorem matches_times {least : Nat} {most : Option Nat} (h : ∀ m ∈ most, least ≤ m)
    (sparing : Bool) :
    (times p least most sparing).Matches = (repeated p least most sparing).Matches := by
  -- the bounds that are left are zero or one and one, or something that is repeated still
  have hplain : ∀ {least : Nat} {most : Option Nat}, (∀ m ∈ most, least ≤ m) →
      (if most = some 0 then empty
        else if least = 1 ∧ most = some 1 then p
        else repeated p least most sparing).Matches = (repeated p least most sparing).Matches := by
    intro least most h
    split
    case isTrue hzero =>
      subst hzero
      obtain rfl : least = 0 := Nat.le_zero.1 (h 0 rfl)
      ext b cs a
      simp [Matches, Occurrence.power]
    case isFalse =>
      split
      case isTrue hone =>
        obtain ⟨rfl, rfl⟩ := hone
        ext b cs a
        constructor
        · exact fun hmatch => ⟨1, Nat.le_refl 1, by simp, by rwa [power_one]⟩
        · rintro ⟨n, hle, hmost, hmatch⟩
          obtain rfl : n = 1 := Nat.le_antisymm (hmost 1 rfl) hle
          rwa [power_one] at hmatch
      case isFalse => rfl
  unfold times
  cases hp : p.takesNothing with
  | false => exact hplain h
  | true =>
    -- nothing is repeated, and once is as good as many times
    have hone : ∀ m ∈ some (min (most.getD 1) 1), min least 1 ≤ m := by
      intro m hm
      cases hm
      cases most with
      | none => exact Nat.min_le_right least 1
      | some k =>
        have hk := h k rfl
        rw [Option.getD_some]
        omega
    refine (hplain hone).trans ?_
    ext b cs a
    rw [matches_repeated_of_takesNothing hp, matches_repeated_of_takesNothing hp]
    exact and_congr_right fun _ => or_congr_left (by omega)

end Pattern

end ChipEight
