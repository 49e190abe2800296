import ChipEight.Text.Hex

namespace ChipEight

/-!
# Words of a text — what stands between its breaks

A text is cut at the characters that count as breaks. Breaks next to each other cut it once, so that
blanks that align a text do not show in its words.

* `wordsOf` — the words of a text;
* `IsWord` — texts that are one word;
* `wordsOf_append`, `wordsOf_intercalate` — texts with breaks between their parts;
* `notMem_intercalate` — characters that are in no part of a text;
* `notMem_of_mem_padded` — characters that are in no number.
-/

variable {isBreak : Char → Bool} {w gap : String}

/-- The parts of a text between the characters that break it. -/
def wordsOf (isBreak : Char → Bool) (t : String) : List String :=
  ((t.toList.splitOnP isBreak).filter (· ≠ [])).map String.ofList

/-- A text with something in it and nothing that breaks it. -/
def IsWord (isBreak : Char → Bool) (w : String) : Prop :=
  w.toList ≠ [] ∧ ∀ c ∈ w.toList, isBreak c = false

instance (isBreak : Char → Bool) (w : String) : Decidable (IsWord isBreak w) :=
  decidable_of_iff ((!w.toList.isEmpty && w.toList.all fun c => !isBreak c) = true)
    (by simp [IsWord])

/-- A text that does nothing but break. -/
def IsGap (isBreak : Char → Bool) (s : String) : Prop :=
  s.toList ≠ [] ∧ ∀ c ∈ s.toList, isBreak c = true

instance (isBreak : Char → Bool) (s : String) : Decidable (IsGap isBreak s) :=
  decidable_of_iff ((!s.toList.isEmpty && s.toList.all isBreak) = true) (by simp [IsGap])

theorem wordsOf_word (h : IsWord isBreak w) : wordsOf isBreak w = [w] := by
  obtain ⟨hne, hplain⟩ := h
  rw [wordsOf, List.splitOnP_eq_singleton hplain]
  simp [hne]

/-- The empty part before a break is no word. -/
theorem filter_splitOnP_append {gap : List Char} (h : ∀ c ∈ gap, isBreak c = true)
    (cs : List Char) :
    ((gap ++ cs).splitOnP isBreak).filter (· ≠ []) = (cs.splitOnP isBreak).filter (· ≠ []) := by
  induction gap with
  | nil => rfl
  | cons c rest ih =>
    obtain ⟨hc, hrest⟩ := List.forall_mem_cons.1 h
    -- what is before the break is the empty part, which the filter takes out
    rw [List.cons_append, ← List.nil_append (c :: (rest ++ cs)), List.splitOnP_append_cons _ _ hc,
      List.filter_append, ih hrest]
    rfl

/-- The words of a text with a gap in it are those before it and those after it. -/
theorem wordsOf_append (h : IsGap isBreak gap) (s t : String) :
    wordsOf isBreak (s ++ gap ++ t) = wordsOf isBreak s ++ wordsOf isBreak t := by
  obtain ⟨hne, hbreak⟩ := h
  obtain ⟨c, rest, hgap⟩ := List.exists_cons_of_ne_nil hne
  rw [hgap] at hbreak
  obtain ⟨hc, hrest⟩ := List.forall_mem_cons.1 hbreak
  -- the first break of the gap is where the text is cut; the rest of the gap adds empty parts only
  rw [wordsOf, wordsOf, wordsOf, String.toList_append, String.toList_append, hgap,
    List.append_assoc, List.cons_append, List.splitOnP_append_cons _ _ hc, List.filter_append,
    filter_splitOnP_append hrest, List.map_append]

/-- A text put together from words has those words. -/
theorem wordsOf_intercalate (h : IsGap isBreak gap) {ws : List String}
    (hws : ∀ w ∈ ws, IsWord isBreak w) : wordsOf isBreak (gap.intercalate ws) = ws := by
  induction ws with
  | nil => rfl
  | cons w rest ih =>
    obtain ⟨hw, hrest⟩ := List.forall_mem_cons.1 hws
    cases rest with
    | nil => exact wordsOf_word hw
    | cons v rest =>
      rw [String.intercalate_cons_cons, wordsOf_append h, wordsOf_word hw, ih hrest]
      rfl

/-- A character that stands neither in a part nor between parts is not in the text. -/
theorem notMem_intercalate {c : Char} {ts : List String} (gap : String) (hgap : c ∉ gap.toList)
    (hts : ∀ t ∈ ts, c ∉ t.toList) : c ∉ (gap.intercalate ts).toList := by
  induction ts with
  | nil => simp
  | cons t rest ih =>
    obtain ⟨ht, hrest⟩ := List.forall_mem_cons.1 hts
    cases rest with
    | nil => exact ht
    | cons u rest =>
      rw [String.intercalate_cons_cons, String.toList_append, String.toList_append,
        List.mem_append, List.mem_append, not_or, not_or]
      exact ⟨⟨ht, hgap⟩, ih hrest⟩

/-- Nothing but digits stands in a number. -/
theorem notMem_of_mem_padded {breaks : List Char} {width n : Nat} {c : Char}
    (hbreaks : (breaks.all fun b => (Hex.digitValue? b).isNone) = true)
    (h : c ∈ Hex.padded width n) : c ∉ breaks := by
  intro hc
  have hnone := Option.isNone_iff_eq_none.1 (List.all_eq_true.1 hbreaks c hc)
  have hsome := Hex.isSome_of_mem_padded h
  rw [hnone] at hsome
  contradiction

end ChipEight
