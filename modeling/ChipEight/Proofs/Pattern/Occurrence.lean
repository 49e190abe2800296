import ChipEight.Pattern.Basic

namespace ChipEight

/-!
# Occurrences — what a pattern matches

What is looked for occurs between a text before it and a text behind it, since some patterns ask
about the characters around a place. Occurrences follow each other and are chosen from, and with
both operations they are an algebra: what follows what is associative, the empty text is neutral,
and a choice can be made first or later.

* `Occurrence` — which texts count, between which others;
* `Occurrence.followed`, `Occurrence.or` — one occurrence behind another, and either of two;
* `Occurrence.power`, `Occurrence.upTo`, `Occurrence.any` — so many in a row, so many at most, and
  any number of them;
* `Occurrence.power_add`, `Occurrence.power_min` — how many there are in a row;
* `Pattern.Matches` — the occurrences of a pattern.
-/

/-- Which texts count as what is looked for: the text before, the text itself, the text behind. -/
abbrev Occurrence := List Char → List Char → List Char → Prop

namespace Occurrence

variable {R S T : Occurrence} {b cs a ds es : List Char} {c : Char} {m n : Nat}

/-- The empty text. -/
def nothing : Occurrence :=
  fun _ cs _ => cs = []

/-- One occurrence and another behind it. -/
def followed (R S : Occurrence) : Occurrence :=
  fun b cs a => ∃ ds es, cs = ds ++ es ∧ R b ds (es ++ a) ∧ S (b ++ ds) es a

/-- Either of two. -/
def or (R S : Occurrence) : Occurrence :=
  fun b cs a => R b cs a ∨ S b cs a

/-- So many in a row. -/
def power (R : Occurrence) : Nat → Occurrence
  | 0 => nothing
  | n + 1 => R.followed (R.power n)

/-- So many in a row at most. -/
def upTo (R : Occurrence) (n : Nat) : Occurrence :=
  fun b cs a => ∃ m ≤ n, R.power m b cs a

/-- Any number of them in a row. -/
def any (R : Occurrence) : Occurrence :=
  fun b cs a => ∃ n, R.power n b cs a

/-! ### One behind another -/

@[simp] theorem nothing_followed (R : Occurrence) : nothing.followed R = R := by
  ext b cs a
  constructor
  · rintro ⟨ds, es, rfl, rfl, h⟩
    simpa using h
  · intro h
    exact ⟨[], cs, rfl, rfl, by simpa using h⟩

@[simp] theorem followed_nothing (R : Occurrence) : R.followed nothing = R := by
  ext b cs a
  constructor
  · rintro ⟨ds, es, rfl, h, rfl⟩
    simpa using h
  · intro h
    exact ⟨cs, [], by simp, h, rfl⟩

theorem followed_assoc (R S T : Occurrence) :
    (R.followed S).followed T = R.followed (S.followed T) := by
  ext b cs a
  constructor
  · rintro ⟨_, fs, rfl, ⟨ds, es, rfl, hr, hs⟩, ht⟩
    rw [← List.append_assoc] at hr ht
    exact ⟨ds, es ++ fs, by simp, hr, es, fs, rfl, hs, ht⟩
  · rintro ⟨ds, _, rfl, hr, es, fs, rfl, hs, ht⟩
    rw [List.append_assoc] at hr ht
    exact ⟨ds ++ es, fs, by simp, ⟨ds, es, rfl, hr, hs⟩, ht⟩

theorem or_followed (R S T : Occurrence) :
    (R.or S).followed T = (R.followed T).or (S.followed T) := by
  ext b cs a
  constructor
  · rintro ⟨ds, es, hcs, hr | hs, ht⟩
    · exact .inl ⟨ds, es, hcs, hr, ht⟩
    · exact .inr ⟨ds, es, hcs, hs, ht⟩
  · rintro (⟨ds, es, hcs, hr, ht⟩ | ⟨ds, es, hcs, hs, ht⟩)
    · exact ⟨ds, es, hcs, .inl hr, ht⟩
    · exact ⟨ds, es, hcs, .inr hs, ht⟩

/-! ### In a row -/

@[simp] theorem power_one (R : Occurrence) : R.power 1 = R :=
  followed_nothing R

theorem power_add (R : Occurrence) (m n : Nat) :
    R.power (m + n) = (R.power m).followed (R.power n) := by
  induction m with
  | zero => simp [power]
  | succ m ih => rw [Nat.add_right_comm, power, power, ih, followed_assoc]

/-- Of more occurrences than there are characters one is empty, and it can be made again. -/
theorem power_succ (h : R.power n b cs a) (hn : cs.length < n) : R.power (n + 1) b cs a := by
  induction n generalizing b cs with
  | zero => exact absurd hn (Nat.not_lt_zero _)
  | succ n ih =>
    obtain ⟨ds, es, rfl, hr, hs⟩ := h
    cases ds with
    | nil => exact ⟨[], es, rfl, hr, by rw [List.append_nil]; exact ⟨[], es, rfl, hr, hs⟩⟩
    | cons c ds =>
      rw [List.length_append, List.length_cons] at hn
      exact ⟨c :: ds, es, rfl, hr, ih hs (by omega)⟩

/-- Of more occurrences than there are characters one is empty, and it can be left out. -/
theorem power_pred (h : R.power (n + 1) b cs a) (hn : cs.length ≤ n) : R.power n b cs a := by
  induction n generalizing b cs with
  | zero =>
    obtain ⟨ds, es, rfl, -, rfl⟩ := h
    exact List.length_eq_zero_iff.1 (by omega)
  | succ n ih =>
    obtain ⟨ds, es, rfl, hr, hs⟩ := h
    cases ds with
    | nil => simpa using hs
    | cons c ds =>
      rw [List.length_append, List.length_cons] at hn
      exact ⟨c :: ds, es, rfl, hr, ih hs (by omega)⟩

/-- More occurrences in a row than there are places are as good as one for each place. -/
theorem power_min (hm : cs.length < m) : R.power (min n m) b cs a ↔ R.power n b cs a := by
  rcases Nat.le_total n m with h | h
  · rw [Nat.min_eq_left h]
  · rw [Nat.min_eq_right h]
    induction h with
    | refl => rfl
    | @step n hmn ih =>
      have hle : m ≤ n := hmn
      exact ih.trans ⟨fun h => power_succ h (by omega), fun h => power_pred h (by omega)⟩

/-- So many in a row, each of which may be left out. -/
theorem power_nothing_or (R : Occurrence) (n : Nat) : (nothing.or R).power n = R.upTo n := by
  induction n with
  | zero =>
    ext b cs a
    simp [power, upTo]
  | succ n ih =>
    rw [power, ih, or_followed, nothing_followed]
    ext b cs a
    constructor
    · rintro (⟨m, hm, h⟩ | ⟨ds, es, rfl, hr, m, hm, h⟩)
      · exact ⟨m, by omega, h⟩
      · exact ⟨m + 1, by omega, ds, es, rfl, hr, h⟩
    · rintro ⟨m, hm, h⟩
      cases m with
      | zero => exact .inl ⟨0, by omega, h⟩
      | succ m =>
        obtain ⟨ds, es, rfl, hr, h⟩ := h
        exact .inr ⟨ds, es, rfl, hr, m, by omega, h⟩

/-- So many in a row, and then so many at most. -/
theorem power_followed_upTo :
    (R.power n).followed (R.upTo m) b cs a
      ↔ ∃ k, n ≤ k ∧ k ≤ n + m ∧ R.power k b cs a := by
  constructor
  · rintro ⟨ds, es, hcs, hr, k, hk, h⟩
    refine ⟨n + k, by omega, by omega, ?_⟩
    rw [power_add]
    exact ⟨ds, es, hcs, hr, h⟩
  · rintro ⟨k, hle, hk, h⟩
    rw [← Nat.add_sub_cancel' hle, power_add] at h
    obtain ⟨ds, es, hcs, hr, h⟩ := h
    exact ⟨ds, es, hcs, hr, k - n, by omega, h⟩

/-- So many in a row, and then any number of them. -/
theorem power_followed_any :
    (R.power n).followed R.any b cs a ↔ ∃ k, n ≤ k ∧ R.power k b cs a := by
  constructor
  · rintro ⟨ds, es, hcs, hr, k, h⟩
    refine ⟨n + k, by omega, ?_⟩
    rw [power_add]
    exact ⟨ds, es, hcs, hr, h⟩
  · rintro ⟨k, hle, h⟩
    rw [← Nat.add_sub_cancel' hle, power_add] at h
    obtain ⟨ds, es, hcs, hr, h⟩ := h
    exact ⟨ds, es, hcs, hr, k - n, h⟩

theorem any_nil (R : Occurrence) (b a : List Char) : R.any b [] a :=
  ⟨0, rfl⟩

/-- Of occurrences in a row that take a character, one takes the first, and those in front of it are
empty. -/
theorem any_cons :
    R.any b (c :: cs) a
      ↔ ∃ ds es, cs = ds ++ es ∧ R b (c :: ds) (es ++ a) ∧ R.any (b ++ c :: ds) es a := by
  constructor
  · rintro ⟨n, h⟩
    induction n with
    | zero => cases h
    | succ n ih =>
      obtain ⟨ds, es, hcs, hr, hs⟩ := h
      cases ds with
      | nil =>
        -- an empty one in front, so that the next ones take the character
        obtain rfl : c :: cs = es := hcs
        exact ih (by simpa using hs)
      | cons d ds =>
        cases hcs
        exact ⟨ds, es, rfl, hr, n, hs⟩
  · rintro ⟨ds, es, rfl, hr, n, hs⟩
    exact ⟨n + 1, c :: ds, es, rfl, hr, hs⟩

end Occurrence

/-! ### Patterns -/

/-- The occurrences of a pattern. Of a repetition there are at least as many as the lower bound
says; an upper bound below it asks for no more than that. -/
def Pattern.Matches : Pattern → Occurrence
  | empty => .nothing
  | text t => fun _ cs _ => cs = t
  | set s _ => fun _ cs _ => ∃ c, cs = [c] ∧ s.holds c = true
  | edge e => fun b cs a => cs = [] ∧ e.holds b.getLast? a.head? = true
  | group _ p => p.Matches
  | repeated p least most _ => fun b cs a =>
    ∃ n, least ≤ n ∧ (∀ m ∈ most, n ≤ max least m) ∧ p.Matches.power n b cs a
  | join p q => p.Matches.followed q.Matches
  | either p q => p.Matches.or q.Matches

end ChipEight
