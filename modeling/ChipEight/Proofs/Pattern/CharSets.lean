import ChipEight.Pattern.Flags

namespace ChipEight

/-!
# Sets of characters — the ranges hold what the operations say

Sets are kept as ranges that start and end with characters, in ascending order. From there on a
union holds what either set holds, and so on for the other operations, and what they make is kept in
the same way. A complement has to find a character between two ranges of the set. It takes it for
granted, and where the next range starts with the next character, the complement holds the two
characters that meet there. That happens to the last character below the surrogates and the first
one above them, since a union only merges ranges whose code points meet.

* `KeptFrom`, `Kept` — ranges in order from a code point on, and sets of them;
* `holds_union`, `holds_inter`, `holds_diff`, `holds_symmDiff` — the operations;
* `holds_compl`, `holds_compl_seam` — complements, with and without a character in each gap;
* `holds_anyCase` — both cases of letters;
* `Pattern.Flags.holds_anyChar` — the dot.
-/

namespace CharSet

/-- Ranges of characters from a code point on, in order. -/
def KeptFrom : Nat → List (Nat × Nat) → Prop
  | _, [] => True
  | lo, r :: rest =>
    (lo ≤ r.1 ∧ r.1 ≤ r.2) ∧ (r.1.isValidChar ∧ r.2.isValidChar) ∧ KeptFrom (r.2 + 1) rest

/-- The ranges of a set are in order. -/
def Kept (s : CharSet) : Prop :=
  KeptFrom 0 s.ranges

variable {s t : CharSet} {r : Nat × Nat} {rs ts : List (Nat × Nat)} {lo hi n : Nat} {c d : Char}

/-! ### Ranges in order -/

theorem KeptFrom.mono (h : KeptFrom hi rs) (hle : lo ≤ hi) : KeptFrom lo rs := by
  cases rs with
  | nil => trivial
  | cons r rest => exact ⟨⟨Nat.le_trans hle h.1.1, h.1.2⟩, h.2⟩

theorem covers_cons : covers (r :: rs) n = true ↔ (r.1 ≤ n ∧ n ≤ r.2) ∨ covers rs n = true := by
  simp [covers]

theorem covers_append : covers (rs ++ ts) n = true ↔ covers rs n = true ∨ covers ts n = true := by
  simp [covers]

@[simp] theorem covers_nil : covers [] n = false :=
  rfl

theorem KeptFrom.le_of_covers (h : KeptFrom lo rs) (hn : covers rs n = true) : lo ≤ n := by
  induction rs generalizing lo with
  | nil => cases hn
  | cons r rest ih =>
    obtain ⟨⟨hlo, hle⟩, -, hrest⟩ := h
    rcases covers_cons.1 hn with hr | hn
    · omega
    · have := ih hrest hn
      omega

/-- Ranges behind ranges that end in time are in order. -/
theorem KeptFrom.append (h : KeptFrom lo rs) (hend : ∀ r ∈ rs, r.2 ≤ hi) (ht : KeptFrom (hi + 1) ts)
    (hlo : lo ≤ hi + 1) : KeptFrom lo (rs ++ ts) := by
  induction rs generalizing lo with
  | nil => exact ht.mono hlo
  | cons r rest ih =>
    obtain ⟨hr, hcodes, hrest⟩ := h
    have hle := hend r List.mem_cons_self
    exact ⟨hr, hcodes, ih hrest (fun q hq => hend q (List.mem_cons_of_mem _ hq)) (by omega)⟩

theorem isValidChar_toNat (c : Char) : c.toNat.isValidChar :=
  c.valid

/-! ### Single sets -/

@[simp] theorem holds_empty (c : Char) : empty.holds c = false :=
  rfl

theorem holds_range {first last : Char} :
    (range first last).holds c = true ↔ first ≤ c ∧ c ≤ last := by
  simp [range, holds, covers, Char.le_def, UInt32.le_iff_toNat_le]

theorem holds_single : (single d).holds c = true ↔ c = d := by
  rw [single, holds_range]
  constructor
  · rintro ⟨h, h'⟩
    exact Char.le_antisymm h' h
  · rintro rfl
    exact ⟨Char.le_refl c, Char.le_refl c⟩

theorem kept_range {first last : Char} (h : first ≤ last) : Kept (range first last) :=
  ⟨⟨Nat.zero_le _, h⟩, ⟨isValidChar_toNat first, isValidChar_toNat last⟩, trivial⟩

theorem kept_single (c : Char) : Kept (single c) :=
  kept_range (Char.le_refl c)

/-! ### Union -/

theorem covers_insertRange (hr : r.1 ≤ r.2) (h : KeptFrom lo rs) :
    covers (insertRange r rs) n = true ↔ (r.1 ≤ n ∧ n ≤ r.2) ∨ covers rs n = true := by
  induction rs generalizing r lo with
  | nil => simp [insertRange, covers_cons]
  | cons s rest ih =>
    obtain ⟨⟨-, hs⟩, -, hrest⟩ := h
    rw [insertRange]
    split
    case isTrue => rw [covers_cons]
    case isFalse =>
      split
      case isTrue =>
        rw [covers_cons, ih hr hrest, covers_cons]
        exact or_left_comm
      case isFalse =>
        -- the ranges touch, and what is put further on is both of them
        rw [ih (by omega) hrest, covers_cons, ← or_assoc]
        exact or_congr_left (by omega)

theorem isValidChar_min {m : Nat} (hm : m.isValidChar) (hn : n.isValidChar) :
    (min m n).isValidChar := by
  rw [Nat.min_def]
  split <;> assumption

theorem isValidChar_max {m : Nat} (hm : m.isValidChar) (hn : n.isValidChar) :
    (max m n).isValidChar := by
  rw [Nat.max_def]
  split <;> assumption

theorem KeptFrom.insertRange (h : KeptFrom lo rs) (hr : r.1 ≤ r.2) (hlo : lo ≤ r.1)
    (hcodes : r.1.isValidChar ∧ r.2.isValidChar) : KeptFrom lo (insertRange r rs) := by
  induction rs generalizing r lo with
  | nil => exact ⟨⟨hlo, hr⟩, hcodes, trivial⟩
  | cons s rest ih =>
    obtain ⟨hs, hscodes, hrest⟩ := h
    rw [CharSet.insertRange]
    split
    case isTrue hbefore => exact ⟨⟨hlo, hr⟩, hcodes, ⟨by omega, hs.2⟩, hscodes, hrest⟩
    case isFalse =>
      split
      case isTrue hbehind => exact ⟨hs, hscodes, ih hrest hr (by omega) hcodes⟩
      case isFalse =>
        exact ih (hrest.mono (by omega)) (by omega) (by omega)
          ⟨isValidChar_min hcodes.1 hscodes.1, isValidChar_max hcodes.2 hscodes.2⟩

/-- Ranges put into others one by one: what they hold, and that they are in order. -/
theorem insertRanges (hrs : KeptFrom lo rs)
    (hts : ∀ r ∈ ts, r.1 ≤ r.2 ∧ r.1.isValidChar ∧ r.2.isValidChar) :
    KeptFrom 0 (ts.foldr insertRange rs)
      ∧ (covers (ts.foldr insertRange rs) n = true ↔ covers rs n = true ∨ covers ts n = true) := by
  induction ts with
  | nil => exact ⟨hrs.mono (Nat.zero_le lo), by simp⟩
  | cons r rest ih =>
    obtain ⟨hle, hcodes⟩ := hts r List.mem_cons_self
    obtain ⟨hkept, hcovers⟩ := ih fun q hq => hts q (List.mem_cons_of_mem r hq)
    rw [List.foldr_cons]
    refine ⟨hkept.insertRange hle (Nat.zero_le _) hcodes, ?_⟩
    rw [covers_insertRange hle hkept, hcovers, covers_cons]
    exact or_left_comm

theorem KeptFrom.codes (h : KeptFrom lo rs) :
    ∀ r ∈ rs, r.1 ≤ r.2 ∧ r.1.isValidChar ∧ r.2.isValidChar := by
  induction rs generalizing lo with
  | nil => simp
  | cons q rest ih =>
    intro r hr
    rcases List.mem_cons.1 hr with rfl | hr
    · exact ⟨h.1.2, h.2.1⟩
    · exact ih h.2.2 r hr

theorem Kept.union (hs : s.Kept) (ht : t.Kept) : (s.union t).Kept :=
  (insertRanges (n := 0) hs ht.codes).1

/-- A union holds what either set holds. -/
theorem holds_union (hs : s.Kept) (ht : t.Kept) :
    (s.union t).holds c = true ↔ s.holds c = true ∨ t.holds c = true :=
  (insertRanges hs ht.codes).2

/-! ### Neighbours -/

theorem codeAfter_le_iff (hn : n.isValidChar) {m : Nat} (hm : m.isValidChar) :
    codeAfter m ≤ n ↔ m < n := by
  rw [codeAfter]
  split <;> simp only [Nat.isValidChar] at hm hn <;> omega

theorem le_codeBefore_iff (hn : n.isValidChar) {m : Nat} (hm : m.isValidChar) (hpos : 0 < m) :
    n ≤ codeBefore m ↔ n < m := by
  rw [codeBefore]
  split <;> simp only [Nat.isValidChar] at hm hn <;> omega

theorem lt_codeAfter (m : Nat) : m < codeAfter m := by
  rw [codeAfter]
  split <;> omega

theorem codeBefore_lt {m : Nat} (hpos : 0 < m) : codeBefore m < m := by
  rw [codeBefore]
  split <;> omega

theorem isValidChar_codeAfter {m : Nat} (hm : m.isValidChar) (hn : n.isValidChar) (hlt : m < n) :
    (codeAfter m).isValidChar := by
  rw [codeAfter]
  split <;> simp only [Nat.isValidChar] at * <;> omega

theorem isValidChar_codeBefore {m : Nat} (hm : m.isValidChar) : (codeBefore m).isValidChar := by
  rw [codeBefore]
  split <;> simp only [Nat.isValidChar] at * <;> omega

/-- The characters from one code point up to another. -/
def upTo (first last : Nat) : List (Nat × Nat) :=
  if first < last then [(first, codeBefore last)] else []

theorem covers_upTo (hn : n.isValidChar) {first last : Nat} (hlast : last.isValidChar) :
    covers (upTo first last) n = true ↔ first ≤ n ∧ n < last := by
  rw [upTo]
  split
  case isTrue h =>
    rw [covers_cons, le_codeBefore_iff hn hlast (by omega)]
    simp
  case isFalse h =>
    rw [covers_nil]
    constructor
    · exact fun hnot => by cases hnot
    · exact fun hin => absurd (Nat.lt_of_le_of_lt hin.1 hin.2) h

theorem KeptFrom.upTo_append {first last : Nat} (hfirst : first.isValidChar)
    (hlast : last.isValidChar) (h : KeptFrom hi ts) (hle : lo ≤ first) (hlo : lo ≤ hi)
    (hhi : last < hi) : KeptFrom lo (upTo first last ++ ts) := by
  rw [upTo]
  split
  case isTrue hlt =>
    have hbefore := codeBefore_lt (m := last) (by omega)
    exact ⟨⟨hle, (le_codeBefore_iff hfirst hlast (by omega)).2 hlt⟩,
      ⟨hfirst, isValidChar_codeBefore hlast⟩, h.mono (by omega)⟩
  case isFalse => exact h.mono hlo

/-! ### Differences -/

/-- Ranges in order hold nothing in front of them. -/
theorem KeptFrom.not_covers (h : KeptFrom lo rs) (hn : n < lo) : covers rs n = false :=
  Bool.eq_false_iff.2 fun hcovers => Nat.not_le.2 hn (h.le_of_covers hcovers)

theorem not_covers_cons :
    covers (r :: rs) n = false ↔ ¬ (r.1 ≤ n ∧ n ≤ r.2) ∧ covers rs n = false := by
  rw [← Bool.not_eq_true, covers_cons, not_or, Bool.not_eq_true]

/-- What is left of a range are the characters that the removed ranges do not hold. -/
theorem covers_remove (hn : n.isValidChar) (hr : r.1 ≤ r.2)
    (hcodes : r.1.isValidChar ∧ r.2.isValidChar) (h : KeptFrom lo ts) :
    covers (remove r ts) n = true ↔ (r.1 ≤ n ∧ n ≤ r.2) ∧ covers ts n = false := by
  induction ts generalizing r lo with
  | nil => simp [remove, covers]
  | cons s rest ih =>
    obtain ⟨⟨-, hs⟩, hscodes, hrest⟩ := h
    rw [remove, not_covers_cons]
    split
    case isTrue hbefore =>
      rw [ih hr hcodes hrest]
      refine and_congr_right fun hin => ?_
      rw [and_iff_right (by omega)]
    case isFalse =>
      split
      case isTrue hbehind =>
        have hnone : n ≤ r.2 → covers rest n = false := fun hle => hrest.not_covers (by omega)
        rw [covers_cons, covers_nil]
        constructor
        · rintro (hin | hnot)
          · exact ⟨hin, by omega, hnone hin.2⟩
          · cases hnot
        · exact fun hin => .inl hin.1
      case isFalse =>
        -- what is in front of the removed range stays, and what is behind it goes on
        have hfront : covers (upTo r.1 s.1) n = true ↔ r.1 ≤ n ∧ n < s.1 :=
          covers_upTo hn hscodes.1
        have hback : covers (if s.2 < r.2 then remove (codeAfter s.2, r.2) rest else []) n = true
            ↔ s.2 < n ∧ n ≤ r.2 ∧ covers rest n = false := by
          split
          case isTrue hlt =>
            rw [ih (r := (codeAfter s.2, r.2)) ((codeAfter_le_iff hcodes.2 hscodes.2).2 hlt)
              ⟨isValidChar_codeAfter hscodes.2 hcodes.2 hlt, hcodes.2⟩ hrest,
              codeAfter_le_iff hn hscodes.2, and_assoc]
          case isFalse => simp; omega
        rw [← upTo, covers_append, hfront, hback]
        have hnone : n < s.1 → covers rest n = false := fun hlt => hrest.not_covers (by omega)
        constructor
        · rintro (hin | hin)
          · exact ⟨by omega, by omega, hnone hin.2⟩
          · exact ⟨by omega, by omega, hin.2.2⟩
        · rintro ⟨hin, hout, hrest⟩
          by_cases hlt : n < s.1
          · exact .inl ⟨hin.1, hlt⟩
          · exact .inr ⟨by omega, hin.2, hrest⟩

/-- What is left of a range is in order, and it is a part of the range. -/
theorem keptFrom_remove (hr : r.1 ≤ r.2) (hcodes : r.1.isValidChar ∧ r.2.isValidChar)
    (h : KeptFrom lo ts) : KeptFrom r.1 (remove r ts) ∧ ∀ q ∈ remove r ts, q.2 ≤ r.2 := by
  induction ts generalizing r lo with
  | nil => exact ⟨⟨⟨Nat.le_refl _, hr⟩, hcodes, trivial⟩, by simp [remove]⟩
  | cons s rest ih =>
    obtain ⟨⟨-, hs⟩, hscodes, hrest⟩ := h
    rw [remove]
    split
    case isTrue => exact ih hr hcodes hrest
    case isFalse =>
      split
      case isTrue => exact ⟨⟨⟨Nat.le_refl _, hr⟩, hcodes, trivial⟩, by simp⟩
      case isFalse =>
        have hback : KeptFrom (s.2 + 1)
              (if s.2 < r.2 then remove (codeAfter s.2, r.2) rest else [])
            ∧ ∀ q ∈ (if s.2 < r.2 then remove (codeAfter s.2, r.2) rest else []), q.2 ≤ r.2 := by
          split
          case isTrue hlt =>
            have hafter := lt_codeAfter s.2
            obtain ⟨hkept, hend⟩ := ih (r := (codeAfter s.2, r.2))
              ((codeAfter_le_iff hcodes.2 hscodes.2).2 hlt)
              ⟨isValidChar_codeAfter hscodes.2 hcodes.2 hlt, hcodes.2⟩ hrest
            exact ⟨hkept.mono hafter, hend⟩
          case isFalse => exact ⟨trivial, by simp⟩
        refine ⟨hback.1.upTo_append hcodes.1 hscodes.1 (Nat.le_refl _) (by omega) (by omega), ?_⟩
        intro q hq
        rcases List.mem_append.1 hq with hq | hq
        · split at hq
          case isTrue hlt =>
            obtain rfl := List.mem_singleton.1 hq
            have hbefore := codeBefore_lt (m := s.1) (by omega)
            simp only
            omega
          case isFalse => cases hq
        · exact hback.2 q hq

/-- Parts of ranges in order are in order. -/
theorem KeptFrom.flatMap {f : Nat × Nat → List (Nat × Nat)} (h : KeptFrom lo rs)
    (hf : ∀ r ∈ rs, KeptFrom r.1 (f r) ∧ ∀ q ∈ f r, q.2 ≤ r.2) : KeptFrom lo (rs.flatMap f) := by
  induction rs generalizing lo with
  | nil => trivial
  | cons r rest ih =>
    obtain ⟨⟨hlo, hle⟩, -, hrest⟩ := h
    obtain ⟨hkept, hend⟩ := hf r List.mem_cons_self
    rw [List.flatMap_cons]
    exact (hkept.mono hlo).append hend (ih hrest fun q hq => hf q (List.mem_cons_of_mem r hq))
      (by omega)

theorem covers_flatMap {f : Nat × Nat → List (Nat × Nat)} {p : Prop}
    (hf : ∀ r ∈ rs, covers (f r) n = true ↔ (r.1 ≤ n ∧ n ≤ r.2) ∧ p) :
    covers (rs.flatMap f) n = true ↔ covers rs n = true ∧ p := by
  induction rs with
  | nil => simp
  | cons r rest ih =>
    rw [List.flatMap_cons, covers_append, hf r List.mem_cons_self,
      ih fun q hq => hf q (List.mem_cons_of_mem r hq), covers_cons, or_and_right]

theorem Kept.diff (hs : s.Kept) (ht : t.Kept) : (s.diff t).Kept :=
  KeptFrom.flatMap hs fun r hr =>
    have ⟨hle, hcodes⟩ := hs.codes r hr
    keptFrom_remove hle hcodes ht

/-- A difference holds what the first set holds and the second does not. -/
theorem holds_diff (hs : s.Kept) (ht : t.Kept) :
    (s.diff t).holds c = true ↔ s.holds c = true ∧ t.holds c = false :=
  covers_flatMap fun r hr =>
    have ⟨hle, hcodes⟩ := hs.codes r hr
    covers_remove (isValidChar_toNat c) hle hcodes ht

/-! ### What two sets have in common -/

theorem covers_overlap :
    covers (ts.filterMap (overlap? r)) n = true ↔ (r.1 ≤ n ∧ n ≤ r.2) ∧ covers ts n = true := by
  induction ts with
  | nil => simp
  | cons s rest ih =>
    rw [covers_cons, List.filterMap_cons]
    by_cases h : max r.1 s.1 ≤ min r.2 s.2
    · rw [overlap?, if_pos h, covers_cons, ih, and_or_left]
      exact or_congr_left (by simp only; omega)
    · rw [overlap?, if_neg h, ih]
      exact and_congr_right fun hin => ⟨.inr, fun h' => h'.resolve_left (by omega)⟩

theorem keptFrom_overlap (hcodes : r.1.isValidChar ∧ r.2.isValidChar) (h : KeptFrom lo ts) :
    KeptFrom (max lo r.1) (ts.filterMap (overlap? r))
      ∧ ∀ q ∈ ts.filterMap (overlap? r), q.2 ≤ r.2 := by
  induction ts generalizing lo with
  | nil => exact ⟨trivial, by simp⟩
  | cons s rest ih =>
    obtain ⟨⟨hlo, hs⟩, hscodes, hrest⟩ := h
    obtain ⟨hkept, hend⟩ := ih hrest
    rw [List.filterMap_cons]
    by_cases h : max r.1 s.1 ≤ min r.2 s.2
    · rw [overlap?, if_pos h]
      refine ⟨⟨⟨by simp only; omega, h⟩, ⟨isValidChar_max hcodes.1 hscodes.1,
        isValidChar_min hcodes.2 hscodes.2⟩, hkept.mono (by simp only; omega)⟩, ?_⟩
      intro q hq
      rcases List.mem_cons.1 hq with rfl | hq
      · exact Nat.min_le_left _ _
      · exact hend q hq
    · rw [overlap?, if_neg h]
      exact ⟨hkept.mono (by omega), hend⟩

theorem Kept.inter (hs : s.Kept) (ht : t.Kept) : (s.inter t).Kept :=
  KeptFrom.flatMap hs fun r hr => by
    have ⟨hkept, hend⟩ := keptFrom_overlap (hs.codes r hr).2 ht
    exact ⟨hkept.mono (by omega), hend⟩

/-- What two sets have in common holds what both hold. -/
theorem holds_inter : (s.inter t).holds c = true ↔ s.holds c = true ∧ t.holds c = true :=
  covers_flatMap fun _ _ => covers_overlap

theorem Kept.symmDiff (hs : s.Kept) (ht : t.Kept) : (s.symmDiff t).Kept :=
  (hs.union ht).diff (hs.inter ht)

/-- A symmetric difference holds what exactly one of the sets holds. -/
theorem holds_symmDiff (hs : s.Kept) (ht : t.Kept) :
    (s.symmDiff t).holds c = (s.holds c != t.holds c) := by
  rw [Bool.eq_iff_iff, symmDiff, holds_diff (hs.union ht) (hs.inter ht), holds_union hs ht,
    ← Bool.not_eq_true, holds_inter]
  cases s.holds c <;> cases t.holds c <;> simp

/-! ### Complements -/

/-- Between two ranges of a set there is a character. -/
def Gapped (s : CharSet) : Prop :=
  ∀ r ∈ s.ranges, ∀ t ∈ s.ranges, r.2 < t.1 → codeAfter r.2 < t.1

instance (s : CharSet) : Decidable s.Gapped :=
  inferInstanceAs (Decidable (∀ r ∈ s.ranges, ∀ t ∈ s.ranges, r.2 < t.1 → codeAfter r.2 < t.1))

/-- The characters between two ranges. -/
theorem between_eq {q : Nat × Nat} (hr : r.2.isValidChar) (hq : q.1.isValidChar)
    (hgap : codeAfter r.2 < q.1) :
    between r q = (codeAfter r.2, codeBefore q.1) ∧ codeAfter r.2 ≤ codeBefore q.1 := by
  have hlt := Nat.lt_trans (lt_codeAfter r.2) hgap
  have hle := (le_codeBefore_iff (isValidChar_codeAfter hr hq hlt) hq (by omega)).2 hgap
  exact ⟨by rw [between, Nat.min_eq_left hle, Nat.max_eq_right hle], hle⟩

theorem gaps_spec (h : KeptFrom lo (r :: rs))
    (hgaps : ∀ q ∈ r :: rs, ∀ t ∈ r :: rs, q.2 < t.1 → codeAfter q.2 < t.1) :
    KeptFrom (r.2 + 1) (gaps (r :: rs))
      ∧ ∀ n, n.isValidChar →
        (covers (gaps (r :: rs)) n = true ↔ r.2 < n ∧ covers rs n = false) := by
  induction rs generalizing r lo with
  | nil =>
    obtain ⟨-, hcodes, -⟩ := h
    have hmax : maxCode.isValidChar := by decide
    rw [gaps]
    split
    case isTrue hlt =>
      refine ⟨⟨⟨lt_codeAfter r.2, (codeAfter_le_iff hmax hcodes.2).2 hlt⟩,
        ⟨isValidChar_codeAfter hcodes.2 hmax hlt, hmax⟩, trivial⟩, fun n hn => ?_⟩
      rw [covers_cons, codeAfter_le_iff hn hcodes.2]
      simp only [Nat.isValidChar, maxCode, covers_nil] at hn ⊢
      simp
      omega
    case isFalse hge =>
      refine ⟨trivial, fun n hn => ?_⟩
      simp only [Nat.isValidChar, maxCode, covers_nil] at hn hge ⊢
      simp
      omega
  | cons q rest ih =>
    obtain ⟨-, hcodes, hq⟩ := h
    obtain ⟨⟨hlt, hqle⟩, hqcodes, hrest⟩ := hq
    obtain ⟨hkept, hcovers⟩ := ih ⟨⟨hlt, hqle⟩, hqcodes, hrest⟩ fun x hx y hy =>
      hgaps x (List.mem_cons_of_mem r hx) y (List.mem_cons_of_mem r hy)
    obtain ⟨hbetween, hle⟩ := between_eq hcodes.2 hqcodes.1
      (hgaps r List.mem_cons_self q (List.mem_cons_of_mem r List.mem_cons_self) hlt)
    have hbefore := codeBefore_lt (m := q.1) (by omega)
    rw [gaps, hbetween]
    refine ⟨⟨⟨lt_codeAfter r.2, hle⟩, ⟨isValidChar_codeAfter hcodes.2 hqcodes.1 (by omega),
      isValidChar_codeBefore hqcodes.1⟩, hkept.mono (by simp only; omega)⟩, fun n hn => ?_⟩
    -- a code point in this gap is in none of the later ranges, as they are in order
    have hnone : n < q.1 → covers rest n = false := fun h => hrest.not_covers (by omega)
    rw [covers_cons, codeAfter_le_iff hn hcodes.2, le_codeBefore_iff hn hqcodes.1 (by omega),
      hcovers n hn, not_covers_cons]
    constructor
    · rintro (hin | hin)
      · exact ⟨hin.1, by omega, hnone hin.2⟩
      · exact ⟨by omega, by omega, hin.2⟩
    · rintro ⟨hgt, hout, hrest⟩
      by_cases h : n < q.1
      · exact .inl ⟨hgt, h⟩
      · exact .inr ⟨by omega, hrest⟩

theorem compl_spec (hs : s.Kept) (hgaps : s.Gapped) :
    s.compl.Kept
      ∧ ∀ n, n.isValidChar → (covers s.compl.ranges n = true ↔ covers s.ranges n = false) := by
  obtain ⟨ranges⟩ := s
  cases ranges with
  | nil =>
    refine ⟨⟨⟨Nat.le_refl 0, by decide⟩, by decide, trivial⟩, fun n hn => ?_⟩
    rw [show (compl ⟨[]⟩).ranges = [(0, maxCode)] from rfl, covers_cons]
    simp only [Nat.isValidChar, maxCode, covers_nil] at hn ⊢
    simp
    omega
  | cons r rest =>
    obtain ⟨hkept, hcovers⟩ := gaps_spec hs hgaps
    obtain ⟨⟨-, hle⟩, hcodes, hrest⟩ := hs
    have hcompl : (compl ⟨r :: rest⟩).ranges = upTo 0 r.1 ++ gaps (r :: rest) := rfl
    refine ⟨?_, fun n hn => ?_⟩
    · rw [Kept, hcompl]
      exact hkept.upTo_append (by decide) hcodes.1 (Nat.le_refl 0) (Nat.zero_le _) (by omega)
    · have hnone : n < r.1 → covers rest n = false := fun h => hrest.not_covers (by omega)
      rw [hcompl, covers_append, covers_upTo hn hcodes.1, hcovers n hn, not_covers_cons]
      constructor
      · rintro (hin | hin)
        · exact ⟨by omega, hnone hin.2⟩
        · exact ⟨by omega, hin.2⟩
      · rintro ⟨hout, hrest⟩
        by_cases h : n < r.1
        · exact .inl ⟨Nat.zero_le n, h⟩
        · exact .inr ⟨by omega, hrest⟩

theorem Kept.compl (hs : s.Kept) (hgaps : s.Gapped) : s.compl.Kept :=
  (compl_spec hs hgaps).1

/-- A complement holds what the set does not hold. -/
theorem holds_compl (hs : s.Kept) (hgaps : s.Gapped) :
    s.compl.holds c = true ↔ s.holds c = false :=
  (compl_spec hs hgaps).2 _ (isValidChar_toNat c)

/-- Where one range ends and the next one starts with the next character, the complement holds both
of these characters, as the set does. -/
theorem holds_compl_seam {first last : Nat} (hd : d.toNat = codeAfter c.toNat)
    (h : s.ranges = rs ++ (first, c.toNat) :: (d.toNat, last) :: ts) :
    s.compl.holds c = true ∧ s.compl.holds d = true := by
  have hbefore : codeBefore d.toNat = c.toNat := by
    have hc := isValidChar_toNat c
    rw [hd, codeAfter, codeBefore]
    split <;> split <;> simp only [Nat.isValidChar] at hc <;> omega
  have hlt : c.toNat < d.toNat := hd ▸ lt_codeAfter c.toNat
  -- the ends of the gap come out the wrong way round, and are exchanged
  have hgap : (c.toNat, d.toNat) ∈ gaps s.ranges := by
    rw [h]
    clear h
    induction rs with
    | nil =>
      have hbetween : between (first, c.toNat) (d.toNat, last) = (c.toNat, d.toNat) := by
        simp only [between, hbefore, ← hd]
        rw [Nat.min_eq_right (Nat.le_of_lt hlt), Nat.max_eq_left (Nat.le_of_lt hlt)]
      exact hbetween ▸ List.mem_cons_self
    | cons r rest ih =>
      cases rest with
      | nil => exact List.mem_cons_of_mem _ ih
      | cons q rest => exact List.mem_cons_of_mem _ ih
  have hmem : (c.toNat, d.toNat) ∈ s.compl.ranges := by
    obtain ⟨ranges⟩ := s
    cases ranges with
    | nil => cases hgap
    | cons r rest => exact List.mem_append_right _ hgap
  have hholds : ∀ {n}, c.toNat ≤ n → n ≤ d.toNat → covers s.compl.ranges n = true :=
    fun hge hle => List.any_eq_true.2 ⟨_, hmem, decide_eq_true ⟨hge, hle⟩⟩
  exact ⟨hholds (Nat.le_refl _) (Nat.le_of_lt hlt), hholds (Nat.le_of_lt hlt) (Nat.le_refl _)⟩

-- The character below the surrogates and the one above them are neighbours.
example : ((single '\uD7FF').union (single '\uE000')).compl.holds '\uE000' = true := by decide

/-! ### Cases -/

theorem toNat_toLower (c : Char) :
    c.toLower.toNat = if 65 ≤ c.toNat ∧ c.toNat ≤ 90 then c.toNat + 32 else c.toNat := by
  have hupper : (c.val ≥ 'A'.val ∧ c.val ≤ 'Z'.val) ↔ 65 ≤ c.toNat ∧ c.toNat ≤ 90 := by
    rw [ge_iff_le, UInt32.le_iff_toNat_le, UInt32.le_iff_toNat_le]
    exact Iff.rfl
  unfold Char.toLower
  split
  case isTrue h =>
    rw [if_pos (hupper.1 h)]
    have hsum : (c.val + ('a'.val - 'A'.val)).toNat = (c.toNat + 32) % 2 ^ 32 := UInt32.toNat_add ..
    have hle := (hupper.1 h).2
    exact hsum.trans (Nat.mod_eq_of_lt (by omega))
  case isFalse h => rw [if_neg (mt hupper.2 h)]

/-- The ranges of what a set has in common with one range lie in that range. -/
theorem mem_inter_range {first last : Char} (hr : r ∈ (s.inter (range first last)).ranges) :
    first.toNat ≤ r.1 ∧ r.1 ≤ r.2 ∧ r.2 ≤ last.toNat := by
  obtain ⟨q, -, hq⟩ := List.mem_flatMap.1 hr
  obtain ⟨t, ht, hover⟩ := List.mem_filterMap.1 hq
  obtain rfl := List.mem_singleton.1 ht
  rw [overlap?] at hover
  split at hover
  case isTrue h =>
    cases hover
    simp only at h ⊢
    omega
  case isFalse => cases hover

/-- Ranges that are moved hold a code point if the ranges held the one that comes there. -/
theorem covers_moved {first last : Char} {f : Nat → Nat} {m : Nat}
    (hf : ∀ k, first.toNat ≤ k → k ≤ last.toNat → (f k ≤ n ↔ k ≤ m) ∧ (n ≤ f k ↔ m ≤ k)) :
    covers ((s.inter (range first last)).ranges.map fun r => (f r.1, f r.2)) n = true
      ↔ covers s.ranges m = true ∧ first.toNat ≤ m ∧ m ≤ last.toNat := by
  have hmoved : ∀ rs : List (Nat × Nat),
      (∀ r ∈ rs, first.toNat ≤ r.1 ∧ r.1 ≤ r.2 ∧ r.2 ≤ last.toNat) →
        (covers (rs.map fun r => (f r.1, f r.2)) n = true ↔ covers rs m = true) := by
    intro rs hrs
    induction rs with
    | nil => exact Iff.rfl
    | cons r rest ih =>
      obtain ⟨hfirst, hle, hlast⟩ := hrs r List.mem_cons_self
      rw [List.map_cons, covers_cons, covers_cons, ih fun q hq => hrs q (List.mem_cons_of_mem r hq),
        (hf r.1 hfirst (by omega)).1, (hf r.2 (by omega) hlast).2]
  have hinter : covers (s.inter (range first last)).ranges m = true
      ↔ covers s.ranges m = true ∧ covers (range first last).ranges m = true :=
    covers_flatMap fun _ _ => covers_overlap
  rw [hmoved _ fun r hr => mem_inter_range hr, hinter, range, covers_cons, covers_nil]
  simp

/-- A set of moved ranges. -/
theorem moved_spec (s : CharSet) (first last : Char) (f : Nat → Nat) (m : Nat)
    (hf : ∀ k, first.toNat ≤ k → k ≤ last.toNat →
      (f k ≤ c.toNat ↔ k ≤ m) ∧ (c.toNat ≤ f k ↔ m ≤ k))
    (hcodes : ∀ k l, first.toNat ≤ k → k ≤ l → l ≤ last.toNat →
      f k ≤ f l ∧ (f k).isValidChar ∧ (f l).isValidChar) :
    (ofRanges ((s.inter (range first last)).ranges.map fun r => (f r.1, f r.2))).Kept
      ∧ ((ofRanges ((s.inter (range first last)).ranges.map fun r => (f r.1, f r.2))).holds c = true
        ↔ covers s.ranges m = true ∧ first.toNat ≤ m ∧ m ≤ last.toNat) := by
  have hempty : KeptFrom 0 [] := trivial
  have hkept : ∀ r ∈ (s.inter (range first last)).ranges.map fun r => (f r.1, f r.2),
      r.1 ≤ r.2 ∧ r.1.isValidChar ∧ r.2.isValidChar := by
    intro r hr
    obtain ⟨q, hq, rfl⟩ := List.mem_map.1 hr
    obtain ⟨hfirst, hle, hlast⟩ := mem_inter_range hq
    exact hcodes q.1 q.2 hfirst hle hlast
  obtain ⟨hmoved, hcovers⟩ := insertRanges (n := c.toNat) hempty hkept
  refine ⟨hmoved, ?_⟩
  rw [← covers_moved hf]
  exact hcovers.trans (by simp)

theorem toNat_ofNat (hn : n.isValidChar) : (Char.ofNat n).toNat = n := by
  rw [Char.ofNat, dif_pos hn]
  rfl

theorem toLower_eq_iff :
    d.toLower = c.toLower
      ↔ d.toNat = c.toNat ∨ (d.toNat = c.toNat + 32 ∧ 65 ≤ c.toNat ∧ c.toNat ≤ 90)
        ∨ (d.toNat + 32 = c.toNat ∧ 97 ≤ c.toNat ∧ c.toNat ≤ 122) := by
  rw [← Char.toNat_inj, toNat_toLower, toNat_toLower]
  split <;> split <;> omega

/-- The small letters of a set, as capital ones. -/
theorem raised_spec (s : CharSet) (c : Char) :
    (ofRanges ((s.inter lower).ranges.map fun r => (r.1 - 32, r.2 - 32))).Kept
      ∧ ((ofRanges ((s.inter lower).ranges.map fun r => (r.1 - 32, r.2 - 32))).holds c = true
        ↔ covers s.ranges (c.toNat + 32) = true ∧ 97 ≤ c.toNat + 32 ∧ c.toNat + 32 ≤ 122) :=
  moved_spec s 'a' 'z' (· - 32) (c.toNat + 32) (fun k (hk : 97 ≤ k) _ => by omega)
    fun k l (hk : 97 ≤ k) _ (hl : l ≤ 122) => by simp only [Nat.isValidChar]; omega

/-- The capital letters of a set, as small ones. -/
theorem lowered_spec (s : CharSet) (c : Char) :
    (ofRanges ((s.inter upper).ranges.map fun r => (r.1 + 32, r.2 + 32))).Kept
      ∧ ((ofRanges ((s.inter upper).ranges.map fun r => (r.1 + 32, r.2 + 32))).holds c = true
        ↔ covers s.ranges (c.toNat - 32) = true ∧ 65 ≤ c.toNat - 32 ∧ c.toNat - 32 ≤ 90) :=
  moved_spec s 'A' 'Z' (· + 32) (c.toNat - 32) (fun k (hk : 65 ≤ k) _ => by omega)
    fun k l (hk : 65 ≤ k) _ (hl : l ≤ 90) => by simp only [Nat.isValidChar]; omega

theorem Kept.anyCase (hs : s.Kept) : s.anyCase.Kept :=
  -- which letters are moved does not depend on the character that the lemmas ask about
  (hs.union (raised_spec s default).1).union (lowered_spec s default).1

/-- A set in either case holds the characters that are the same as one of the set but for the
case. -/
theorem holds_anyCase (hs : s.Kept) :
    s.anyCase.holds c = true ↔ ∃ d, s.holds d = true ∧ d.toLower = c.toLower := by
  obtain ⟨hraised, hr⟩ := raised_spec s c
  obtain ⟨hlowered, hl⟩ := lowered_spec s c
  unfold CharSet.anyCase
  rw [holds_union (hs.union hraised) hlowered, holds_union hs hraised, hr, hl]
  constructor
  · rintro ((h | ⟨h, hc⟩) | ⟨h, hc⟩)
    · exact ⟨c, h, rfl⟩
    · have hd := toNat_ofNat (n := c.toNat + 32) (.inl (by omega))
      exact ⟨Char.ofNat (c.toNat + 32), by rwa [holds, hd], toLower_eq_iff.2 (by omega)⟩
    · have hd := toNat_ofNat (n := c.toNat - 32) (.inl (by omega))
      exact ⟨Char.ofNat (c.toNat - 32), by rwa [holds, hd], toLower_eq_iff.2 (by omega)⟩
  · rintro ⟨d, h, hcase⟩
    rw [holds] at h
    rcases toLower_eq_iff.1 hcase with hsame | ⟨hsame, hc⟩ | ⟨hsame, hc⟩
    · exact .inl (.inl (by rwa [holds, ← hsame]))
    · exact .inl (.inr ⟨by rwa [← hsame], by omega⟩)
    · exact .inr ⟨by rwa [← hsame, Nat.add_sub_cancel], by omega⟩

/-! ### Sets in use -/

instance KeptFrom.decidable : (lo : Nat) → (rs : List (Nat × Nat)) → Decidable (KeptFrom lo rs)
  | _, [] => inferInstanceAs (Decidable True)
  | lo, r :: rest =>
    have := KeptFrom.decidable (r.2 + 1) rest
    inferInstanceAs (Decidable
      ((lo ≤ r.1 ∧ r.1 ≤ r.2) ∧ (r.1.isValidChar ∧ r.2.isValidChar) ∧ KeptFrom (r.2 + 1) rest))

/-- The sets that have a name are in order, with a character in each gap. -/
theorem spec_of_ofName {name : String} (h : ofName? name = some s) : s.Kept ∧ s.Gapped := by
  have hkept : ∀ entry ∈ named, KeptFrom 0 entry.2.ranges := by decide
  have hgaps : ∀ entry ∈ named, entry.2.Gapped := by decide
  obtain ⟨before, behind, hsplit, -⟩ := List.lookup_eq_some_iff.1 h
  have hmem : (name, s) ∈ named := by
    rw [hsplit]
    simp
  exact ⟨hkept _ hmem, hgaps _ hmem⟩

end CharSet

namespace Pattern

open CharSet

variable {s t : CharSet} {c : Char}

/-- The dot stands for any character but those that end lines, unless it stands for these too. -/
theorem Flags.holds_anyChar {f : Flags} (h : f.anyChar? = some s) :
    s.Kept ∧ ∀ c, s.holds c = true
      ↔ f.dotAll = true ∨ (c ≠ '\n' ∧ (f.carriageReturn = true → c ≠ '\r')) := by
  rw [anyChar?] at h
  split at h
  case isFalse => cases h
  case isTrue =>
    cases h
    cases f.dotAll with
    | true =>
      have hgaps : Gapped .empty := fun r hr => absurd hr List.not_mem_nil
      have hkept : Kept .empty := trivial
      exact ⟨hkept.compl hgaps, fun c => by simp [holds_compl hkept hgaps]⟩
    | false =>
      cases f.carriageReturn with
      | true =>
        have hgaps : Gapped ((single '\n').union (.single '\r')) := by decide
        have hkept := (kept_single '\n').union (kept_single '\r')
        refine ⟨hkept.compl hgaps, fun c => ?_⟩
        have hends := holds_union (c := c) (kept_single '\n') (kept_single '\r')
        rw [holds_single, holds_single] at hends
        simp [holds_compl hkept hgaps, ← Bool.not_eq_true, hends]
      | false =>
        have hgaps : Gapped (single '\n') := by decide
        have hkept := kept_single '\n'
        exact ⟨hkept.compl hgaps, fun c => by
          simp [holds_compl hkept hgaps, ← Bool.not_eq_true, holds_single]⟩

end Pattern

end ChipEight
