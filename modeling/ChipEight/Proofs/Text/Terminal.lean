import ChipEight.Text.Terminal

namespace ChipEight.Terminal

/-!
# What a terminal shows — no orders, and nothing twice

What is left of a text for a terminal are characters that are shown in any place, in their order. So
a text of such characters is left as it is, and to take the orders out again changes nothing.

* `Plain` — texts of characters that are shown outside of sequences;
* `shows_of_mem_shown`, `shown_sublist` — what is left of a text;
* `shown_eq_self_iff`, `shown_shown` — plain texts are left as they are, and no others.
-/

/-- Each character is shown outside of sequences. -/
def Plain (text : List Char) : Prop :=
  text.all State.ground.shows = true

variable {text : List Char} {s : State} {c : Char} {run : Bool}

instance (text : List Char) : Decidable (Plain text) :=
  inferInstanceAs (Decidable (text.all State.ground.shows = true))

theorem plain_iff : Plain text ↔ ∀ c ∈ text, State.ground.shows c = true :=
  List.all_eq_true

theorem plain_append {more : List Char} : Plain (text ++ more) ↔ Plain text ∧ Plain more := by
  rw [Plain, List.all_append, Bool.and_eq_true]
  rfl

/-- What a state shows is shown outside of sequences too. -/
theorem State.ground_shows_of_shows (h : s.shows c = true) : State.ground.shows c = true := by
  cases s <;> simp_all [State.shows]

theorem shows_of_mem_shownFrom (h : c ∈ shownFrom run s text) : State.ground.shows c = true := by
  induction text generalizing run s with
  | nil => cases h
  | cons d rest ih =>
    unfold shownFrom at h
    by_cases hd : (if run then State.ground else s).shows d = true
    · rw [if_pos hd] at h
      rcases List.mem_cons.1 h with rfl | h
      · exact State.ground_shows_of_shows hd
      · exact ih h
    · rw [if_neg hd] at h
      exact ih h

/-- Only what is shown anywhere is left of a text. -/
theorem plain_shown (text : List Char) : Plain (shown text) :=
  plain_iff.2 fun _ => shows_of_mem_shownFrom

theorem shownFrom_sublist (run : Bool) (s : State) (text : List Char) :
    (shownFrom run s text).Sublist text := by
  induction text generalizing run s with
  | nil => exact .slnil
  | cons c rest ih =>
    unfold shownFrom
    by_cases hc : (if run then State.ground else s).shows c = true
    · rw [if_pos hc]
      exact (ih true _).cons_cons c
    · rw [if_neg hc]
      exact (ih false _).cons c

/-- What is left of a text keeps its order. -/
theorem shown_sublist (text : List Char) : (shown text).Sublist text :=
  shownFrom_sublist false .ground text

theorem shownFrom_ground (h : Plain text) : shownFrom run .ground text = text := by
  induction text generalizing run with
  | nil => rfl
  | cons c rest ih =>
    rw [Plain, List.all_cons, Bool.and_eq_true] at h
    unfold shownFrom
    simp [h.1, ih h.2]

/-- The texts that are left as they are. -/
theorem shown_eq_self_iff : shown text = text ↔ Plain text :=
  ⟨fun h => h ▸ plain_shown text, shownFrom_ground⟩

/-- To take the orders out again changes nothing. -/
theorem shown_shown (text : List Char) : shown (shown text) = shown text :=
  shown_eq_self_iff.2 (plain_shown text)

end ChipEight.Terminal
