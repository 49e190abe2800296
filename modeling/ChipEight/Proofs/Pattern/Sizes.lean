import ChipEight.Pattern.Size

namespace ChipEight.Pattern

/-!
# Sizes — automata only grow

Whatever is built on an automaton leaves its states and arcs where they are. So one that has become
too large stays too large, and it does not matter at which steps the size is asked for: every
automaton on the way to one that fits did fit.

* `Build.Grown` — an automaton with all that another has;
* `setReader_grown` — sets;
* `build_grown`, `size_le_of_build` — patterns, which fit when they are built;
* `size_le_of_fits` — the automata of a pattern that fits.
-/

namespace Build

/-- An automaton with all that another has. -/
structure Grown (b c : Build) : Prop where
  /-- There are as many states at least. -/
  states : b.states ≤ c.states
  /-- Arcs and links take as much at least. -/
  extra : b.extra ≤ c.extra

variable {b c e : Build}

namespace Grown

theorem refl (b : Build) : b.Grown b :=
  ⟨Nat.le_refl _, Nat.le_refl _⟩

theorem trans (h : b.Grown c) (h' : c.Grown e) : b.Grown e :=
  ⟨Nat.le_trans h.states h'.states, Nat.le_trans h.extra h'.extra⟩

theorem grow (b : Build) (states arcs links : Nat) : b.Grown (b.grow states arcs links) :=
  ⟨Nat.le_add_right _ _, Nat.le_trans (Nat.le_add_right _ _) (Nat.le_add_right _ _)⟩

theorem plus (b c : Build) : b.Grown (b.plus c) :=
  ⟨Nat.le_add_right _ _, Nat.le_add_right _ _⟩

theorem size_le (h : b.Grown c) : b.size ≤ c.size :=
  Nat.add_le_add (Nat.mul_le_mul_left _ h.states) h.extra

theorem foldl {α σ : Type} (get : σ → Build) {step : σ → α → σ} {s s' : σ} {l : List α}
    (h : l.foldl step s = s') (hstep : ∀ s x, (get s).Grown (get (step s x))) :
    (get s).Grown (get s') := by
  induction l generalizing s with
  | nil => cases h; exact .refl _
  | cons x rest ih => exact (hstep s x).trans (ih h)

theorem repeatedly {step : Build → Option Build}
    (hstep : ∀ {b c : Build}, step b = some c → b.Grown c) {n : Nat}
    (h : Build.repeatedly step n b = some c) : b.Grown c := by
  induction n generalizing b with
  | zero => cases h; exact .refl _
  | succ n ih =>
    obtain ⟨e, he, h⟩ := Option.bind_eq_some_iff.1 h
    exact (hstep he).trans (ih h)

end Grown

theorem within?_eq_some_iff : b.within? = some c ↔ b.size ≤ sizeLimit ∧ b = c := by
  rw [within?, Option.ite_none_right_eq_some, Option.some.injEq]

end Build

open Build

variable {b c : Build}

/-! ### Sets -/

theorem spanReader_grown (last n : Nat) (spans : List Utf8.Span) (known : Build × Slots) :
    known.1.Grown (spanReader last n spans known).2.1 := by
  induction n generalizing spans known with
  | zero => exact .refl _
  | succ n ih =>
    rw [spanReader]
    split
    case isTrue => exact .refl _
    case isFalse =>
      split
      next arcs b t hfold =>
      have harcs := Grown.foldl (fun s : List Nat × Build × Slots => s.2.1) hfold
        fun s x => ih x.2 s.2
      split
      case h_1 => exact harcs
      case h_2 => exact harcs.trans (.grow _ _ _ _)

theorem addSpan_grown (last : Nat) (known : Build × Slots) (span : Utf8.Span) :
    known.1.Grown (addSpan last known span).1 := by
  rw [addSpan]
  split
  next state b t hfold =>
  have hstates := Grown.foldl (fun s : Nat × Build × Slots => s.2.1) hfold fun s x => by
    dsimp only
    split
    case h_1 => exact .refl _
    case h_2 => exact .grow _ _ _ _
  exact hstates.trans (.grow _ _ _ _)

theorem setReader_grown (d : Direction) (s : CharSet) (b : Build) : b.Grown (setReader d s b) := by
  unfold setReader
  split
  case isTrue => exact .grow _ _ _ _
  case isFalse =>
    cases d with
    | forward => exact (Grown.grow b 1 0 0).trans (spanReader_grown _ _ _ (_, _))
    | backward =>
      dsimp only
      generalize hfold : List.foldl _ _ _ = known
      exact (Grown.grow b 2 0 0).trans
        (Grown.foldl (fun known : Build × Slots => known.1) hfold (addSpan_grown _))

/-! ### Patterns -/

/-- An alternative is linked if what comes of it fits. -/
theorem linked?_grown {role : Role} (h : role.linked? b = some c) :
    b.Grown c ∧ c.size ≤ sizeLimit := by
  cases role with
  | alone =>
    obtain ⟨hsize, rfl⟩ := within?_eq_some_iff.1 h
    exact ⟨.refl b, hsize⟩
  | second =>
    obtain ⟨hsize, rfl⟩ := within?_eq_some_iff.1 h
    exact ⟨.grow _ _ _ _, hsize⟩
  | later =>
    obtain ⟨hsize, rfl⟩ := within?_eq_some_iff.1 h
    exact ⟨.grow _ _ _ _, hsize⟩

theorem repeat?_grown {once : Build → Option Build}
    (honce : ∀ {b c : Build}, once b = some c → b.Grown c) {takes : Bool} {least : Nat}
    {most : Option Nat} (h : repeat? once takes least most b = some c) : b.Grown c := by
  have hforked : ∀ {b c : Build}, once (b.grow 1 0 2) = some c → b.Grown c :=
    fun h => (Grown.grow _ _ _ _).trans (honce h)
  unfold repeat? at h
  simp only at h
  split at h
  -- one or none
  case h_1 =>
    obtain ⟨e, he, rfl⟩ := Option.map_eq_some_iff.1 h
    exact (hforked he).trans (.grow _ _ _ _)
  -- any number
  case h_2 =>
    split at h
    case isTrue => exact hforked h
    case isFalse =>
      obtain ⟨e, he, rfl⟩ := Option.map_eq_some_iff.1 h
      exact (honce he).trans (.grow _ _ _ _)
  -- a least number
  case h_3 =>
    obtain ⟨e, he, rfl⟩ := Option.map_eq_some_iff.1 h
    exact (Grown.repeatedly honce he).trans (.grow _ _ _ _)
  -- a greatest number
  case h_4 => exact (Grown.grow _ _ _ _).trans (Grown.repeatedly hforked h)
  -- both
  case h_5 =>
    obtain ⟨e, he, h⟩ := Option.bind_eq_some_iff.1 h
    have he := Grown.repeatedly honce he
    split at h
    case isTrue => cases h; exact he
    case isFalse => exact (he.trans (.grow _ _ _ _)).trans (Grown.repeatedly hforked h)

/-- What is built on an automaton that has grown is linked if it fits. -/
theorem Build.Grown.linked? {e : Build} (he : b.Grown e) {role : Role}
    (h : role.linked? e = some c) : b.Grown c ∧ c.size ≤ sizeLimit := by
  obtain ⟨hgrown, hsize⟩ := linked?_grown h
  exact ⟨he.trans hgrown, hsize⟩

/-- **A pattern is built if what comes of it fits**, and what was there stays. -/
theorem build_grown {d : Direction} {role : Role} {p : Pattern} (h : build d role p b = some c) :
    b.Grown c ∧ c.size ≤ sizeLimit := by
  induction p generalizing b c role with
  | empty => exact (Grown.grow b 1 0 0).linked? h
  | text cs => exact (Grown.grow b _ 0 0).linked? h
  | set s wide => exact (setReader_grown d s b).linked? h
  | edge e => exact (Grown.grow b 1 0 0).linked? h
  | group number p ih =>
    cases d with
    | forward =>
      obtain ⟨e, he, h⟩ := Option.bind_eq_some_iff.1 h
      exact (((Grown.grow b 1 0 0).trans (ih he).1).trans (.grow e 1 0 0)).linked? h
    | backward =>
      obtain ⟨e, he, h⟩ := Option.bind_eq_some_iff.1 h
      exact (ih he).1.linked? h
  | repeated p least most sparing ih =>
    obtain ⟨e, he, h⟩ := Option.bind_eq_some_iff.1 h
    exact (repeat?_grown (fun h => (ih h).1) he).linked? h
  | join p q ihp ihq =>
    cases d with
    | forward =>
      obtain ⟨e, he, h⟩ := Option.bind_eq_some_iff.1 h
      obtain ⟨e', he', h⟩ := Option.bind_eq_some_iff.1 h
      exact ((ihp he).1.trans (ihq he').1).linked? h
    | backward =>
      obtain ⟨e, he, h⟩ := Option.bind_eq_some_iff.1 h
      obtain ⟨e', he', h⟩ := Option.bind_eq_some_iff.1 h
      exact ((ihq he).1.trans (ihp he').1).linked? h
  | either p q ihp ihq =>
    cases role with
    | alone =>
      rw [build] at h
      split at h
      case h_1 =>
        obtain ⟨hsize, rfl⟩ := within?_eq_some_iff.1 h
        exact ⟨.plus b _, hsize⟩
      case h_2 =>
        obtain ⟨e, he, h⟩ := Option.bind_eq_some_iff.1 h
        exact ⟨(ihp he).1.trans (ihq h).1, (ihq h).2⟩
    | second =>
      obtain ⟨e, he, h⟩ := Option.bind_eq_some_iff.1 h
      obtain ⟨e', he', he⟩ := Option.bind_eq_some_iff.1 he
      exact ⟨((ihp he').1.linked? he).1.trans (ihq h).1, (ihq h).2⟩
    | later =>
      obtain ⟨e, he, h⟩ := Option.bind_eq_some_iff.1 h
      obtain ⟨e', he', he⟩ := Option.bind_eq_some_iff.1 he
      exact ⟨((ihp he').1.linked? he).1.trans (ihq h).1, (ihq h).2⟩

/-- An automaton that a pattern is built on fits, if the pattern does. -/
theorem size_le_of_build {d : Direction} {role : Role} {p : Pattern}
    (h : build d role p b = some c) : b.size ≤ sizeLimit :=
  Nat.le_trans (build_grown h).1.size_le (build_grown h).2

/-- The automata of a pattern that fits keep to the limit. -/
theorem size_le_of_fits {p : Pattern} (h : p.fits = true) (d : Direction) :
    ∃ b, automaton? d p = some b ∧ b.size ≤ sizeLimit := by
  obtain ⟨hforward, hbackward⟩ := Bool.and_eq_true_iff.1 h
  have hsome : (automaton? d p).isSome = true := by
    cases d with
    | forward => exact hforward
    | backward => exact hbackward
  obtain ⟨b, hb⟩ := Option.isSome_iff_exists.1 hsome
  obtain ⟨e, -, he⟩ := Option.bind_eq_some_iff.1 hb
  obtain ⟨hsize, rfl⟩ := within?_eq_some_iff.1 he
  exact ⟨_, hb, hsize⟩

end ChipEight.Pattern
