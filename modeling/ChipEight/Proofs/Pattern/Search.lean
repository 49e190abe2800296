import ChipEight.Pattern.Search
import ChipEight.Proofs.Pattern.Occurrence

namespace ChipEight.Pattern

/-!
# Searching — lines with a match

The search goes over numbers whose bits are lengths. At a place, which has a text before it and the
rest of the line behind it, a number marks what is looked for if its bits are the lengths of the
occurrences there. Each of the operations of the search is one of the operations of occurrences.

* `Marks`, `Tells` — a number for a place, and numbers for all places from one on;
* `Tells.followed`, `Tells.closure`, `Tells.merged`, `Tells.power` — the operations;
* `tells_lengths` — the lengths of the matches of a pattern;
* `found_iff` — a line has a match exactly if the pattern occurs somewhere in it.
-/

variable {R S : Occurrence} {before rest line : List Char} {c : Char} {n first : Nat}
  {these others behind once : Lengths}

/-- The bits of a number are the lengths of the occurrences at a place. -/
def Marks (R : Occurrence) (before rest : List Char) (n : Nat) : Prop :=
  ∀ k, n.testBit k = true ↔ k ≤ rest.length ∧ R before (rest.take k) (rest.drop k)

/-- Numbers mark the occurrences at a place and at the places behind it. -/
inductive Tells (R : Occurrence) : List Char → List Char → Lengths → Prop
  | last {before : List Char} {n : Nat} (h : Marks R before [] n) : Tells R before [] [n]
  | next {before rest : List Char} {c : Char} {n : Nat} {behind : Lengths}
      (h : Marks R before (c :: rest) n) (later : Tells R (before ++ [c]) rest behind) :
      Tells R before (c :: rest) (n :: behind)

/-- What occurrences mean for a text that starts the rest of a line and may be the whole of it. -/
theorem marks_congr (h : ∀ b cs a, cs.length ≤ rest.length → (R b cs a ↔ S b cs a)) :
    Marks R before rest n ↔ Marks S before rest n :=
  forall_congr' fun k => by rw [h _ _ _ (List.length_take_le' k rest)]

theorem Tells.congr (ht : Tells R before rest these)
    (h : ∀ b cs a, cs.length ≤ rest.length → (R b cs a ↔ S b cs a)) :
    Tells S before rest these := by
  induction ht with
  | last hm => exact .last ((marks_congr h).1 hm)
  | next hm _ ih =>
    exact .next ((marks_congr h).1 hm) (ih fun b cs a hle => h b cs a (Nat.le_succ_of_le hle))

/-! ### Single places -/

/-- A rule that marks the occurrences at every place tells them. -/
theorem Tells.atPlaces {rule : Option Char → List Char → Nat}
    (h : ∀ before rest, Marks R before rest (rule before.getLast? rest)) (before rest : List Char) :
    Tells R before rest (atPlaces rule before.getLast? rest) := by
  induction rest generalizing before with
  | nil => exact .last (h before [])
  | cons c rest ih =>
    have hlater := ih (before ++ [c])
    rw [List.getLast?_concat] at hlater
    exact .next (h before (c :: rest)) hlater

/-- Nothing occurs at every place. -/
theorem marks_nothing (before rest : List Char) : Marks .nothing before rest 1 := by
  intro k
  rw [Nat.testBit_one_eq_true_iff_self_eq_zero, Occurrence.nothing, List.take_eq_nil_iff]
  constructor
  · rintro rfl
    exact ⟨Nat.zero_le _, .inl rfl⟩
  · rintro ⟨hk, rfl | rfl⟩
    · rfl
    · simpa using hk

theorem Tells.noChars (before rest : List Char) : Tells .nothing before rest (noChars rest) := by
  induction rest generalizing before with
  | nil => exact .last (marks_nothing before [])
  | cons c rest ih => exact .next (marks_nothing before (c :: rest)) (ih _)

theorem marks_text (t before rest : List Char) :
    Marks (text t).Matches before rest (if t.isPrefixOf rest then 1 <<< t.length else 0) := by
  intro k
  rw [Matches]
  split
  case isTrue h =>
    obtain ⟨u, rfl⟩ := List.isPrefixOf_iff_prefix.1 h
    rw [Nat.one_shiftLeft, Nat.testBit_two_pow, decide_eq_true_eq]
    constructor
    · rintro rfl
      simp
    · rintro ⟨hk, ht⟩
      rw [← List.length_take_of_le hk, ht]
  case isFalse h =>
    rw [Nat.zero_testBit]
    refine ⟨fun hbit => by simp at hbit, ?_⟩
    rintro ⟨-, rfl⟩
    exact absurd (List.isPrefixOf_iff_prefix.2 (List.take_prefix k rest)) h

theorem marks_set (s : CharSet) (wide : Bool) (before rest : List Char) :
    Marks (set s wide).Matches before rest (if rest.head?.any s.holds then 2 else 0) := by
  intro k
  rw [Matches]
  cases rest with
  | nil => simp
  | cons c rest =>
    rw [List.head?_cons, Option.any_some]
    constructor
    · intro hbit
      split at hbit
      case isTrue h =>
        rw [show 2 = 2 ^ 1 from rfl, Nat.testBit_two_pow, decide_eq_true_eq] at hbit
        subst hbit
        exact ⟨by simp, c, by simp, h⟩
      case isFalse => simp at hbit
    · rintro ⟨hk, d, hd, h⟩
      obtain rfl : k = 1 := by
        rw [← List.length_take_of_le hk, hd, List.length_singleton]
      cases hd
      rw [if_pos h]
      rfl

theorem marks_edge (e : Edge) (before rest : List Char) :
    Marks (edge e).Matches before rest
      (if e.holds before.getLast? rest.head? then 1 else 0) := by
  intro k
  rw [Matches]
  constructor
  · intro hbit
    split at hbit
    case isTrue h =>
      obtain ⟨hk, hnothing⟩ := (marks_nothing before rest k).1 hbit
      obtain rfl : k = 0 := Nat.testBit_one_eq_true_iff_self_eq_zero.1 hbit
      exact ⟨hk, hnothing, h⟩
    case isFalse => simp at hbit
  · rintro ⟨hk, hnothing, h⟩
    have hbit := (marks_nothing before rest k).2 ⟨hk, hnothing⟩
    obtain rfl : k = 0 := Nat.testBit_one_eq_true_iff_self_eq_zero.1 hbit
    rw [List.drop_zero] at h
    rw [if_pos h]
    exact hbit

/-! ### One behind another -/

theorem follow_nil (first : Nat) : follow first [] = 0 :=
  rfl

theorem follow_zero (behind : Lengths) : follow 0 behind = 0 := by
  cases behind <;> rfl

theorem follow_cons (first next : Nat) (behind : Lengths) :
    follow first (next :: behind)
      = (if first.testBit 0 then next else 0) ||| follow (first / 2) behind <<< 1 := by
  rw [follow]
  by_cases h : first = 0
  · simp [h, follow_zero]
  · simp [h, Nat.testBit_zero]

/-- A length behind a length: where the one ends, the other starts. -/
theorem testBit_follow (hs : Tells S before rest behind) (first k : Nat) :
    (follow first behind).testBit k = true
      ↔ ∃ i ≤ k, first.testBit i = true ∧ k ≤ rest.length
        ∧ S (before ++ rest.take i) ((rest.drop i).take (k - i)) (rest.drop k) := by
  induction hs generalizing first k with
  | @last before n hm =>
    rw [follow_cons, follow_nil, Nat.zero_shiftLeft, Nat.or_zero]
    constructor
    · intro hnow
      split at hnow
      case isTrue hbit => exact ⟨0, Nat.zero_le k, hbit, by simpa using (hm k).1 hnow⟩
      case isFalse => simp at hnow
    · rintro ⟨i, hi, hbit, hle, h⟩
      obtain rfl : k = 0 := Nat.le_zero.1 hle
      obtain rfl : i = 0 := Nat.le_zero.1 hi
      rw [if_pos hbit]
      exact (hm 0).2 ⟨hle, by simpa using h⟩
  | @next before rest c n behind hm hlater ih =>
    -- the first length is zero, or it takes this character and is one less behind it
    rw [follow_cons, Nat.testBit_or, Bool.or_eq_true, Nat.testBit_shiftLeft]
    constructor
    · rintro (hnow | hlater)
      · split at hnow
        case isTrue hbit =>
          exact ⟨0, Nat.zero_le k, hbit, by simpa using (hm k).1 hnow⟩
        case isFalse => simp at hnow
      · rw [Bool.and_eq_true, decide_eq_true_eq, ih] at hlater
        obtain ⟨hk, i, hi, hbit, hle, h⟩ := hlater
        obtain ⟨k, rfl⟩ : ∃ j, k = j + 1 := ⟨k - 1, by omega⟩
        refine ⟨i + 1, by omega, ?_, ?_, ?_⟩
        · rwa [Nat.testBit_succ]
        · simpa using hle
        · simpa using h
    · rintro ⟨i, hi, hbit, hle, h⟩
      cases i with
      | zero =>
        rw [if_pos hbit]
        exact .inl ((hm k).2 ⟨hle, by simpa using h⟩)
      | succ i =>
        obtain ⟨k, rfl⟩ : ∃ j, k = j + 1 := ⟨k - 1, by omega⟩
        refine .inr ?_
        rw [Bool.and_eq_true, decide_eq_true_eq, ih]
        refine ⟨by omega, i, by omega, ?_, by simpa using hle, by simpa using h⟩
        rwa [Nat.testBit_succ] at hbit

theorem Marks.follow (hr : Marks R before rest first) (hs : Tells S before rest behind) :
    Marks (R.followed S) before rest (follow first behind) := by
  intro k
  rw [testBit_follow hs]
  constructor
  · rintro ⟨i, hi, hbit, hle, h⟩
    refine ⟨hle, rest.take i, (rest.drop i).take (k - i), ?_, ?_, h⟩
    · rw [← List.take_add, Nat.add_sub_cancel' hi]
    · have hdrop : rest.drop k = (rest.drop i).drop (k - i) := by
        rw [List.drop_drop, Nat.add_sub_cancel' hi]
      rw [hdrop, List.take_append_drop]
      exact ((hr i).1 hbit).2
  · rintro ⟨hle, ds, es, hsplit, hr', hs'⟩
    -- where the one ends and the other starts is told by the length of the first
    have hrest : rest = ds ++ (es ++ rest.drop k) := by
      rw [← List.append_assoc, ← hsplit, List.take_append_drop]
    have hk : k = ds.length + es.length := by
      rw [← List.length_append, ← hsplit, List.length_take_of_le hle]
    generalize rest.drop k = u at hr' hs' hrest ⊢
    subst hrest
    refine ⟨ds.length, by omega, (hr _).2 ⟨by simp, ?_⟩, hle, ?_⟩
    · rwa [List.take_left, List.drop_left]
    · rwa [List.take_left, List.drop_left, hk, Nat.add_sub_cancel_left, List.take_left]

theorem Tells.followed (hr : Tells R before rest these) (hs : Tells S before rest behind) :
    Tells (R.followed S) before rest (followed these behind) := by
  induction hr generalizing behind with
  | last hm =>
    have hmarks := hm.follow hs
    cases hs
    exact .last hmarks
  | next hm _ ih =>
    have hmarks := hm.follow hs
    cases hs with
    | next _ hlater => exact .next hmarks (ih hlater)

theorem Tells.closure (h : Tells R before rest once) : Tells R.any before rest (closure once) := by
  induction h with
  | @last before n hm =>
    refine .last fun k => ?_
    rw [Pattern.closure, follow_nil, Nat.zero_shiftLeft, Nat.or_zero, marks_nothing before [] k]
    simp [Occurrence.nothing, Occurrence.any_nil]
  | @next before rest c n behind hm _ ih =>
    refine .next (fun k => ?_) ih
    -- a first occurrence that takes this character, and others at the places behind it
    let front : Occurrence := fun _ ds a => R before (c :: ds) a
    have hfront : Marks front (before ++ [c]) rest (n / 2) := by
      intro k
      rw [← Nat.testBit_succ, hm]
      simp [front]
    have hbehind := hfront.follow ih
    rw [Nat.testBit_or, Bool.or_eq_true, Nat.testBit_shiftLeft]
    cases k with
    | zero => simp [Occurrence.any_nil]
    | succ k =>
      rw [Nat.testBit_succ, List.take_succ_cons, List.drop_succ_cons, Occurrence.any_cons]
      simpa [Occurrence.followed, front] using hbehind k

theorem Tells.merged (hr : Tells R before rest these) (hs : Tells S before rest others) :
    Tells (R.or S) before rest (merged these others) := by
  have hmarks : ∀ {before rest n m}, Marks R before rest n → Marks S before rest m →
      Marks (R.or S) before rest (n ||| m) := by
    intro before rest n m hn hm k
    rw [Nat.testBit_or, Bool.or_eq_true, hn, hm, ← and_or_left]
    rfl
  induction hr generalizing others with
  | last hn =>
    cases hs with
    | last hm => exact .last (hmarks hn hm)
  | next hn _ ih =>
    cases hs with
    | next hm hlater => exact .next (hmarks hn hm) (ih hlater)

theorem Tells.power (h : Tells R [] line once) (n : Nat) :
    Tells (R.power n) [] line (power line once n) := by
  have hrounds : ∀ m, Tells (R.power m) [] line
      (Nat.repeat (Pattern.followed once) m (Pattern.noChars line)) := by
    intro m
    induction m with
    | zero => exact .noChars [] line
    | succ m ih => exact h.followed ih
  -- more rounds than there are characters come to the same, so that the others are left out
  exact (hrounds _).congr fun b cs a hle => Occurrence.power_min (Nat.lt_succ_of_le hle)

/-! ### Patterns -/

/-- The lengths of the matches of a pattern are those of its occurrences. -/
theorem tells_lengths (line : List Char) (p : Pattern) :
    Tells p.Matches [] line (lengths line p) := by
  induction p with
  | empty => exact .noChars [] line
  | text t => exact .atPlaces (marks_text t) [] line
  | set s wide => exact .atPlaces (marks_set s wide) [] line
  | edge e => exact .atPlaces (marks_edge e) [] line
  | group _ p ih => exact ih
  | repeated p least most _ ih =>
    have hleast := ih.power least
    cases most with
    | none =>
      refine (hleast.followed ih.closure).congr fun b cs a _ => ?_
      rw [Occurrence.power_followed_any]
      simp [Matches]
    | some n =>
      -- those that may come on top are as many rounds of one occurrence or none
      have hmost := ((Tells.noChars [] line).merged ih).power (n - least)
      rw [Occurrence.power_nothing_or] at hmost
      refine (hleast.followed hmost).congr fun b cs a _ => ?_
      rw [Occurrence.power_followed_upTo, show least + (n - least) = max least n by omega]
      simp [Matches]
  | join p q ihp ihq => exact ihp.followed ihq
  | either p q ihp ihq => exact ihp.merged ihq

/-- A number that is not zero marks something at its place. -/
theorem Marks.ne_zero_iff (h : Marks R before rest n) :
    n ≠ 0 ↔ ∃ cs a, rest = cs ++ a ∧ R before cs a := by
  constructor
  · intro hn
    obtain ⟨k, hk⟩ := Nat.exists_testBit_of_ne_zero hn
    exact ⟨rest.take k, rest.drop k, (List.take_append_drop k rest).symm, ((h k).1 hk).2⟩
  · rintro ⟨cs, a, rfl, hr⟩ rfl
    have hbit := (h cs.length).2 ⟨by simp, by simpa using hr⟩
    simp at hbit

/-- Some number is not zero exactly if there is an occurrence at its place. -/
theorem Tells.any_ne_zero (h : Tells R before rest these) :
    these.any (· != 0) = true ↔ ∃ b cs a, rest = b ++ cs ++ a ∧ R (before ++ b) cs a := by
  induction h with
  | last hm =>
    rw [List.any_cons, List.any_nil, Bool.or_false, bne_iff_ne, hm.ne_zero_iff]
    constructor
    · rintro ⟨cs, a, hrest, hr⟩
      exact ⟨[], cs, a, hrest, by simpa using hr⟩
    · rintro ⟨b, cs, a, hrest, hr⟩
      obtain ⟨rfl, -, -⟩ : b = [] ∧ cs = [] ∧ a = [] := by simpa using hrest.symm
      exact ⟨cs, a, hrest, by simpa using hr⟩
  | next hm _ ih =>
    rw [List.any_cons, Bool.or_eq_true, bne_iff_ne, hm.ne_zero_iff, ih]
    constructor
    · rintro (⟨cs, a, hrest, hr⟩ | ⟨b, cs, a, rfl, hr⟩)
      · exact ⟨[], cs, a, hrest, by simpa using hr⟩
      · exact ⟨_ :: b, cs, a, rfl, by simpa using hr⟩
    · rintro ⟨b, cs, a, hrest, hr⟩
      cases b with
      | nil => exact .inl ⟨cs, a, hrest, by simpa using hr⟩
      | cons c b =>
        cases hrest
        exact .inr ⟨b, cs, a, rfl, by simpa using hr⟩

/-- **A line has a match exactly if the pattern occurs somewhere in it.** -/
theorem found_iff (p : Pattern) (line : List Char) :
    p.found line = true ↔ ∃ b cs a, line = b ++ cs ++ a ∧ p.Matches b cs a := by
  rw [found, (tells_lengths line p).any_ne_zero]
  rfl

end ChipEight.Pattern
