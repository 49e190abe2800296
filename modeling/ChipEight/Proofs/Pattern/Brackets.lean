import ChipEight.Pattern.Bracket
import ChipEight.Proofs.Pattern.CharSets

namespace ChipEight.Pattern

/-!
# Brackets — what they hold, and where they end

Brackets hold what one of their items holds, where a pair of signs decides between what is in front
of it and what is behind, and a caret turns the answer round. All items start with sets in order:
characters, ranges, and the sets that have a letter or a name. A caret can put a set out of order,
so the sets in brackets are followed through texts without one.

Whatever is read leaves an end of the text behind, and each item takes a character. So as many
rounds as there are characters are enough, and any more come to the same.

* `Flags.item?_spec`, `Flags.complement?_spec` — sets under the flags;
* `Escape.read_spec`, `Escape.kept_set?` — escapes;
* `Bracket.holds_add`, `Bracket.holds_total`, `Bracket.close?_spec` — what brackets hold;
* `Bracket.readItems_succ`, `Bracket.readItems_congr` — what a round does, and more rounds than are
  needed;
* `Bracket.read_spec` — the set in brackets.
-/

variable {f : Flags} {text rest : List Char} {s t : CharSet} {c : Char}

/-! ### Blanks -/

namespace Flags

theorem span_suffix (f : Flags) (kind : Char → Bool) (inComment : Bool) (text : List Char) :
    (f.span kind inComment text).2 <:+ text := by
  induction text generalizing inComment with
  | nil => exact List.suffix_refl []
  | cons c rest ih =>
    unfold span
    split
    case isTrue => exact (ih _).trans (List.suffix_cons c rest)
    case isFalse =>
      split
      case isTrue => exact (ih _).trans (List.suffix_cons c rest)
      case isFalse =>
        split
        case isTrue => exact (ih _).trans (List.suffix_cons c rest)
        case isFalse =>
          split
          case isTrue => exact (ih _).trans (List.suffix_cons c rest)
          case isFalse => exact List.suffix_refl _

theorem skip_suffix (f : Flags) (text : List Char) : f.skip text <:+ text :=
  f.span_suffix _ _ text

/-- A character behind blanks and comments, and what is behind it. -/
theorem suffix_of_skip {c : Char} (h : f.skip text = c :: rest) : c :: rest <:+ text :=
  h ▸ f.skip_suffix text

/-! ### Sets under the flags -/

/-- A set in brackets holds its characters, and where cases are the same, those that are the same
but for the case. -/
theorem item?_spec (hs : s.Kept) (h : f.item? s = some t) :
    t.Kept ∧ ∀ c, t.holds c = true
      ↔ s.holds c = true ∨ (f.anyCase = true ∧ ∃ d, s.holds d = true ∧ d.toLower = c.toLower) := by
  unfold item? at h
  cases hcase : f.anyCase with
  | false =>
    obtain rfl : s = t := by
      rw [hcase] at h
      split at h
      case isTrue => exact Option.some.inj h
      case isFalse =>
        obtain ⟨-, heq⟩ := Option.ite_none_right_eq_some.1 h
        exact Option.some.inj heq
    exact ⟨hs, fun c => by simp⟩
  | true =>
    obtain rfl : s.anyCase = t := by
      rw [hcase] at h
      split at h
      case isTrue => cases h
      case isFalse =>
        obtain ⟨-, heq⟩ := Option.ite_none_right_eq_some.1 h
        exact Option.some.inj heq
    refine ⟨hs.anyCase, fun c => ?_⟩
    rw [CharSet.holds_anyCase hs, and_iff_right rfl]
    exact ⟨.inr, fun h => h.elim (fun hc => ⟨c, hc, rfl⟩) id⟩

/-- A complement is taken or not. -/
theorem complement?_spec {negated : Bool} (hs : s.Kept) (hgaps : negated = true → s.Gapped)
    (h : f.complement? negated s = some t) :
    t.Kept ∧ ∀ c, t.holds c = (s.holds c != negated) := by
  unfold complement? at h
  cases negated with
  | false =>
    cases h
    exact ⟨hs, fun c => by simp⟩
  | true =>
    obtain ⟨-, heq⟩ := Option.ite_none_right_eq_some.1 h
    cases heq
    refine ⟨hs.compl (hgaps rfl), fun c => ?_⟩
    rw [Bool.eq_iff_iff, CharSet.holds_compl hs (hgaps rfl)]
    simp

end Flags

/-! ### Escapes -/

namespace Escape

variable {e : Escape}

theorem takeDigits_suffix {n : Nat} {digits : List Char}
    (h : takeDigits f n text = some (digits, rest)) : rest <:+ text := by
  induction n generalizing text digits with
  | zero => cases h; exact List.suffix_refl _
  | succ n ih =>
    cases text with
    | nil => cases h
    | cons c later =>
      unfold takeDigits at h
      split at h
      case isTrue =>
        obtain ⟨⟨ds, behind⟩, hrest, heq⟩ := Option.map_eq_some_iff.1 h
        cases heq
        exact (ih hrest).trans ((f.skip_suffix later).trans (List.suffix_cons c _))
      case isFalse => cases h

/-- A code stands for a character and leaves an end of the text. -/
theorem readCode_spec {width : Nat} (h : readCode f width text = some (e, rest)) :
    (∃ c, e = .char c ∨ e = .byte c) ∧ rest <:+ text := by
  unfold readCode at h
  split at h
  case h_1 inside hskip =>
    simp only at h
    split at h
    case h_1 behind hspan =>
      split at h
      case isTrue => cases h
      case isFalse =>
        obtain ⟨c, -, heq⟩ := Option.map_eq_some_iff.1 h
        cases heq
        have hbehind : '}' :: behind <:+ inside := hspan ▸ f.span_suffix _ _ inside
        exact ⟨⟨c, .inl rfl⟩, (f.skip_suffix _).trans <| (List.suffix_cons _ _).trans <|
          hbehind.trans <| (List.suffix_cons _ _).trans (Flags.suffix_of_skip hskip)⟩
    case h_2 => cases h
  case h_2 =>
    obtain ⟨⟨digits, behind⟩, hdigits, h⟩ := Option.bind_eq_some_iff.1 h
    obtain ⟨c, -, heq⟩ := Option.map_eq_some_iff.1 h
    cases heq
    refine ⟨⟨c, ?_⟩, (takeDigits_suffix hdigits).trans (f.skip_suffix text)⟩
    split
    case isTrue => exact .inr rfl
    case isFalse => exact .inl rfl

theorem readWordEdge_suffix {e : WordEdge} (h : readWordEdge f text = some (e, rest)) :
    rest <:+ text := by
  unfold readWordEdge at h
  split at h
  case h_1 inside =>
    simp only at h
    split at h
    case isTrue => cases h; exact List.suffix_refl _
    case isFalse =>
      split at h
      case h_1 behind hspan =>
        have hbehind : '}' :: behind <:+ inside := hspan ▸ f.span_suffix _ _ inside
        obtain ⟨edge, -, heq⟩ := Option.map_eq_some_iff.1 h
        cases heq
        exact ((List.suffix_cons _ _).trans hbehind).trans (List.suffix_cons _ _)
      case h_2 => cases h
  case h_2 => cases h; exact List.suffix_refl _

/-- The set of an escape is in order. -/
def Kept : Escape → Prop
  | letters s _ => s.Kept
  | _ => True

theorem kept_of_lookup {c : Char} (h : table.lookup c = some e) : e.Kept := by
  have hsets : CharSet.Kept .digit ∧ CharSet.Kept .space ∧ CharSet.Kept .word := by
    unfold CharSet.Kept
    decide
  obtain ⟨hdigit, hspace, hword⟩ := hsets
  have htable : ∀ entry ∈ table, Kept entry.2 := by
    simp [table, Kept, hdigit, hspace, hword]
  obtain ⟨before, behind, hsplit, -⟩ := List.lookup_eq_some_iff.1 h
  exact htable (c, e) (by rw [hsplit]; simp)

/-- An escape has its set in order and leaves an end of the text. -/
theorem read_spec (h : read f text = some (e, rest)) : e.Kept ∧ rest <:+ text := by
  unfold read at h
  split at h
  case h_1 => cases h
  case h_2 later =>
    obtain ⟨⟨edge, behind⟩, hedge, heq⟩ := Option.map_eq_some_iff.1 h
    cases heq
    exact ⟨trivial, (readWordEdge_suffix hedge).trans (List.suffix_cons _ _)⟩
  case h_3 c later _ =>
    cases hwidth : codeWidth? c with
    | some width =>
      rw [hwidth] at h
      obtain ⟨⟨d, rfl | rfl⟩, hrest⟩ := readCode_spec h
      · exact ⟨trivial, hrest.trans (List.suffix_cons c later)⟩
      · exact ⟨trivial, hrest.trans (List.suffix_cons c later)⟩
    | none =>
      rw [hwidth] at h
      cases hlookup : table.lookup c with
      | some e' =>
        rw [hlookup] at h
        cases h
        exact ⟨kept_of_lookup hlookup, List.suffix_cons c _⟩
      | none =>
        rw [hlookup] at h
        obtain ⟨-, heq⟩ := Option.ite_none_left_eq_some.1 h
        cases heq
        exact ⟨trivial, List.suffix_cons c _⟩

/-- The set that an escape stands for in brackets is in order. -/
theorem kept_set? (he : e.Kept) (h : e.set? f = some s) : s.Kept := by
  cases e with
  | char c => exact (Flags.item?_spec (CharSet.kept_single c) h).1
  | byte c => exact (Flags.item?_spec (CharSet.kept_single c) h).1
  | letters t negated =>
    obtain ⟨-, heq⟩ := Option.ite_none_left_eq_some.1 h
    exact Option.some.inj heq ▸ he
  | place e => cases h
  | word e => cases h

end Escape

/-! ### What brackets hold -/

theorem SetOp.kept_apply (op : SetOp) (hs : s.Kept) (ht : t.Kept) : (op.apply s t).Kept := by
  cases op with
  | inter => exact hs.inter ht
  | diff => exact hs.diff ht
  | symmDiff => exact hs.symmDiff ht

/-- What a pair of signs in brackets decides about a character. -/
def SetOp.decides : SetOp → Bool → Bool → Bool
  | inter => fun x y => x && y
  | diff => fun x y => x && !y
  | symmDiff => fun x y => x != y

/-- Brackets with a pair of signs in them hold what the pair decides on. -/
theorem SetOp.holds_apply (op : SetOp) (hs : s.Kept) (ht : t.Kept) :
    (op.apply s t).holds c = op.decides (s.holds c) (t.holds c) := by
  cases op with
  | inter => rw [Bool.eq_iff_iff, apply, CharSet.holds_inter, decides, Bool.and_eq_true]
  | diff =>
    rw [Bool.eq_iff_iff, apply, CharSet.holds_diff hs ht, decides, Bool.and_eq_true,
      Bool.not_eq_true']
  | symmDiff => exact CharSet.holds_symmDiff hs ht

namespace Bracket

variable {b b' : Bracket} {n : Nested}

/-- The sets in brackets are in order. -/
structure Kept (b : Bracket) : Prop where
  /-- That of the items since the latest pair of signs. -/
  items : b.items.set.Kept
  /-- That of what is in front of the pair. -/
  before : ∀ n op, b.before = some (n, op) → n.set.Kept

theorem kept_opened (negated : Bool) : (opened negated).Kept :=
  ⟨trivial, fun _ _ h => by cases h⟩

theorem Kept.add (hb : b.Kept) (hn : n.set.Kept) : (b.add n).Kept :=
  ⟨hb.items.union hn, hb.before⟩

theorem set_latest (b : Bracket) : b.latest.set = b.items.set := by
  unfold latest
  split <;> rfl

theorem Kept.total (hb : b.Kept) : b.total.set.Kept := by
  unfold Bracket.total
  split
  case h_1 => exact set_latest b ▸ hb.items
  case h_2 n op hbefore => exact op.kept_apply (hb.before n op hbefore) (set_latest b ▸ hb.items)

theorem Kept.combine (hb : b.Kept) (op : SetOp) : (b.combine op).Kept :=
  ⟨trivial, fun _ _ h => by cases h; exact hb.total⟩

/-- Brackets hold the characters of an item that is put in besides what they held. -/
theorem holds_add (hb : b.Kept) (hn : n.set.Kept) :
    (b.add n).items.set.holds c = true ↔ b.items.set.holds c = true ∨ n.set.holds c = true :=
  CharSet.holds_union hb.items hn

/-- What brackets hold is what the items since the latest pair of signs hold, or what the pair
decides on. -/
theorem holds_total (hb : b.Kept) :
    b.total.set.holds c = b.before.elim (b.items.set.holds c) fun r =>
      r.2.decides (r.1.set.holds c) (b.items.set.holds c) := by
  cases hbefore : b.before with
  | none =>
    have htotal : b.total = b.latest := by rw [total, hbefore]
    rw [htotal, set_latest]
    rfl
  | some r =>
    have htotal : b.total.set = r.2.apply r.1.set b.items.set := by
      rw [total, hbefore]
      exact congrArg _ (set_latest b)
    rw [htotal, r.2.holds_apply (hb.before r.1 r.2 hbefore) hb.items]
    rfl

/-- When brackets are closed, a caret turns the answer round. -/
theorem close?_spec (hb : b.Kept) (hgaps : b.negated = true → b.total.set.Gapped)
    (h : b.close? f = some n) :
    n.set.Kept ∧ ∀ c, n.set.holds c = (b.total.set.holds c != b.negated) := by
  obtain ⟨t, ht, rfl⟩ := Option.map_eq_some_iff.1 h
  exact Flags.complement?_spec hb.total hgaps ht

/-! ### Brackets without a caret -/

/-- The sets in brackets are in order, and no complement is taken of them. -/
structure Direct (b : Bracket) : Prop extends Kept b where
  /-- There is no caret in front. -/
  direct : b.negated = false

theorem Direct.add (hb : b.Direct) (hn : n.set.Kept) : (b.add n).Direct :=
  ⟨hb.toKept.add hn, hb.direct⟩

theorem Direct.combine (hb : b.Direct) (op : SetOp) : (b.combine op).Direct :=
  ⟨hb.toKept.combine op, hb.direct⟩

theorem Direct.close? (hb : b.Direct) (h : b.close? f = some n) : n.set.Kept :=
  (close?_spec hb.toKept (fun hcaret => by simp [hb.direct] at hcaret) h).1

/-- Characters put in one by one leave the sets in order. -/
theorem Kept.addChars {first : List Char} (hb : b.Kept)
    (h : first.foldlM (addChar f) b = some b') : b'.Kept ∧ b'.negated = b.negated := by
  induction first generalizing b with
  | nil =>
    cases h
    exact ⟨hb, rfl⟩
  | cons c rest ih =>
    rw [List.foldlM_cons] at h
    obtain ⟨b₁, hadd, h⟩ := Option.bind_eq_some_iff.1 h
    obtain ⟨s, hs, rfl⟩ := Option.map_eq_some_iff.1 hadd
    exact ih (b := b.add ⟨s, 0⟩) (hb.add (Flags.item?_spec (CharSet.kept_single c) hs).1) h

/-- Brackets are opened, with a caret only if there is one in the text. -/
theorem start_spec (h : start f text = some (b, rest)) :
    rest <:+ text ∧ ('^' ∉ text → b.Direct) := by
  unfold start at h
  split at h
  next negated inside hinside =>
  split at h
  next first behind hfirst =>
  obtain ⟨b', hadd, heq⟩ := Option.map_eq_some_iff.1 h
  cases heq
  obtain ⟨hkept, hnegated⟩ := (kept_opened negated).addChars hadd
  have hin : inside <:+ text ∧ ('^' ∉ text → negated = false) := by
    split at hinside
    case h_1 later hskip =>
      cases hinside
      have hcaret := Flags.suffix_of_skip hskip
      exact ⟨(f.skip_suffix _).trans ((List.suffix_cons _ _).trans hcaret),
        fun hno => absurd (hcaret.subset List.mem_cons_self) hno⟩
    case h_2 =>
      cases hinside
      exact ⟨f.skip_suffix text, fun _ => rfl⟩
  refine ⟨?_, fun hno => ⟨hkept, hnegated.trans (hin.2 hno)⟩⟩
  have hspan := f.span_suffix (· == '-') false inside
  split at hfirst
  case h_1 later hbracket =>
    cases hfirst
    rw [hbracket] at hspan
    exact ((List.suffix_cons _ _).trans hspan).trans hin.1
  case h_2 =>
    rw [hfirst] at hspan
    exact hspan.trans hin.1

/-! ### Items -/

/-- The end of the text behind a name. -/
theorem splitName_suffix {negated : Bool} {name : String}
    (hname : splitName text = some (negated, name, rest)) : rest <:+ text := by
  unfold splitName at hname
  split at hname
  case h_1 inside =>
    extract_lets caret inside' name' at hname
    split at hname
    case h_1 later hdrop =>
      obtain ⟨-, -, rfl⟩ : negated = caret ∧ _ ∧ rest = later := by simpa using hname.symm
      have hlater : ':' :: ']' :: rest <:+ inside' := hdrop ▸ List.drop_suffix _ _
      have hinside : inside' <:+ inside := by
        unfold inside'
        split
        case isTrue => exact List.drop_suffix 1 inside
        case isFalse => exact List.suffix_refl inside
      exact (List.suffix_append [':', ']'] rest).trans <| hlater.trans <|
        hinside.trans (List.suffix_cons _ _)
    case h_2 => cases hname
  case h_2 => cases hname

/-- A set with a name is in order, also if a caret stands in front of the name. -/
theorem readName_spec {named : Option CharSet} (h : readName f text = some (named, rest)) :
    rest <:+ text ∧ ∀ s, named = some s → s.Kept := by
  obtain ⟨⟨negated, name, behind⟩, hname, h⟩ := Option.bind_eq_some_iff.1 h
  obtain ⟨s, hs, heq⟩ := Option.map_eq_some_iff.1 h
  cases heq
  refine ⟨splitName_suffix hname, fun u hu => ?_⟩
  obtain ⟨t, ht, hu⟩ := Option.bind_eq_some_iff.1 hu
  obtain ⟨hkept, hgaps⟩ := CharSet.spec_of_ofName hs
  have htgaps : negated = true → t.Gapped := by
    rintro rfl
    -- where a complement is taken, cases are not the same
    obtain ⟨hwide, -⟩ := Option.ite_none_right_eq_some.1 hu
    unfold Flags.item? at ht
    rw [if_pos hwide] at ht
    obtain ⟨-, heq⟩ := Option.ite_none_left_eq_some.1 ht
    exact Option.some.inj heq ▸ hgaps
  exact (Flags.complement?_spec (Flags.item?_spec hkept ht).1 htgaps hu).1

/-- An item has its set in order, and takes a character at least. -/
theorem readItem_spec {e : Escape} (h : readItem f text = some (e, rest)) :
    e.Kept ∧ ∃ c later, text = c :: later ∧ rest <:+ later := by
  unfold readItem at h
  split at h
  case h_1 => cases h
  case h_2 later =>
    obtain ⟨hkept, hrest⟩ := Escape.read_spec h
    exact ⟨hkept, '\\', later, rfl, hrest⟩
  case h_3 c later _ =>
    cases h
    exact ⟨trivial, c, _, rfl, List.suffix_refl _⟩

/-- A range or an item has its set in order, and takes a character at least. -/
theorem readRange_spec (h : readRange f text = some (s, rest)) :
    s.Kept ∧ ∃ c later, text = c :: later ∧ rest <:+ later := by
  obtain ⟨⟨item, behind⟩, hitem, hrange⟩ := Option.bind_eq_some_iff.1 h
  obtain ⟨hkept, c, later, rfl, hbehind⟩ := readItem_spec hitem
  suffices hspec : s.Kept ∧ rest <:+ later from ⟨hspec.1, c, later, rfl, hspec.2⟩
  clear h
  simp only at hrange
  split at hrange
  case h_1 last hskip =>
    have hlast : '-' :: last <:+ later := (Flags.suffix_of_skip hskip).trans hbehind
    split at hrange
    case isTrue =>
      obtain ⟨t, ht, heq⟩ := Option.map_eq_some_iff.1 hrange
      cases heq
      exact ⟨Escape.kept_set? hkept ht, hlast⟩
    case isFalse =>
      obtain ⟨⟨other, behind'⟩, hother, hrange⟩ := Option.bind_eq_some_iff.1 hrange
      obtain ⟨-, d, later', hskip', hbehind'⟩ := readItem_spec hother
      have hend : behind' <:+ later :=
        hbehind'.trans <| (List.suffix_cons d later').trans <|
          (Flags.suffix_of_skip hskip').trans <| (List.suffix_cons _ last).trans hlast
      simp only at hrange
      split at hrange
      case h_1 first final _ _ =>
        obtain ⟨hle, hset⟩ := Option.ite_none_right_eq_some.1 hrange
        obtain ⟨t, ht, heq⟩ := Option.map_eq_some_iff.1 hset
        cases heq
        exact ⟨(Flags.item?_spec (CharSet.kept_range hle) ht).1, hend⟩
      case h_2 => cases hrange
  case h_2 =>
    obtain ⟨t, ht, heq⟩ := Option.map_eq_some_iff.1 hrange
    cases heq
    exact ⟨Escape.kept_set? hkept ht, (f.skip_suffix behind).trans hbehind⟩

/-! ### Rounds -/

/-- What a round does with brackets: it is the last one, fails, or goes on behind a character. In a
text without a caret the sets stay in order. -/
theorem readItems_succ (f : Flags) (b : Bracket) (outer : List Bracket) (text : List Char) :
    (∃ result rest, (rest <:+ text
        ∧ ('^' ∉ text → (∀ o ∈ b :: outer, o.Direct) → result.set.Kept))
      ∧ ∀ n, readItems f (n + 1) b outer text = some (result, rest))
    ∨ (∀ n, readItems f (n + 1) b outer text = none)
    ∨ ∃ b' outer' rest, (rest <:+ text ∧ rest.length < text.length
        ∧ ('^' ∉ text → (∀ o ∈ b :: outer, o.Direct) → ∀ o ∈ b' :: outer', o.Direct))
      ∧ ∀ n, readItems f (n + 1) b outer text = readItems f n b' outer' rest := by
  have hshorter : ∀ {c : Char} {later rest : List Char}, c :: later <:+ text → rest <:+ later →
      rest <:+ text ∧ rest.length < text.length := by
    intro c later rest hlater hrest
    have hle := hlater.length_le
    rw [List.length_cons] at hle
    exact ⟨(hrest.trans (List.suffix_cons c later)).trans hlater, by
      have := hrest.length_le
      omega⟩
  have hadd : ∀ {s : CharSet}, s.Kept → (∀ o ∈ b :: outer, o.Direct) →
      ∀ o ∈ b.add ⟨s, 0⟩ :: outer, o.Direct := by
    intro s hs hall
    obtain ⟨hb, houter⟩ := List.forall_mem_cons.1 hall
    exact List.forall_mem_cons.2 ⟨hb.add hs, houter⟩
  simp only [readItems]
  split
  -- a closing bracket
  case h_1 rest hskip =>
    have hrest := hshorter (Flags.suffix_of_skip hskip) (List.suffix_refl rest)
    split
    case h_1 n hn =>
      refine .inl ⟨n, rest, ⟨hrest.1, fun _ hall => ?_⟩, fun _ => rfl⟩
      exact (hall b List.mem_cons_self).close? hn
    case h_2 o outer n hn =>
      refine .inr (.inr ⟨_, _, rest, ⟨hrest.1, hrest.2, fun _ hall => ?_⟩, fun _ => rfl⟩)
      obtain ⟨hb, ho, houter⟩ := by simpa only [List.forall_mem_cons] using hall
      exact List.forall_mem_cons.2 ⟨ho.add (hb.close? hn), houter⟩
    case h_3 => exact .inr (.inl fun _ => rfl)
  -- an opening bracket, which may be that of a name
  case h_2 rest hskip =>
    have hopening := Flags.suffix_of_skip hskip
    split
    case h_1 s later hname =>
      obtain ⟨hlater, hs⟩ := readName_spec hname
      have hrest := hshorter hopening hlater
      exact .inr (.inr ⟨_, _, later, ⟨hrest.1, hrest.2, fun _ => hadd (hs s rfl)⟩, fun _ => rfl⟩)
    case h_2 => exact .inr (.inl fun _ => rfl)
    case h_3 =>
      cases hstart : start f rest with
      | none => exact .inr (.inl fun _ => rfl)
      | some r =>
        obtain ⟨hbehind, hdirect⟩ := start_spec hstart
        have hrest := hshorter hopening hbehind
        refine .inr (.inr ⟨_, _, r.2, ⟨hrest.1, hrest.2, fun hno hall => ?_⟩, fun _ => rfl⟩)
        have hno' : '^' ∉ rest := fun hmem =>
          hno (hopening.subset (List.mem_cons_of_mem _ hmem))
        exact List.forall_mem_cons.2 ⟨hdirect hno', hall⟩
  case h_6 =>
    cases hrange : readRange f (f.skip text) with
    | none => exact .inr (.inl fun _ => rfl)
    | some r =>
      obtain ⟨hs, c, later, hskip, hlater⟩ := readRange_spec hrange
      have hrest := hshorter (Flags.suffix_of_skip hskip) hlater
      exact .inr (.inr ⟨_, _, r.2, ⟨hrest.1, hrest.2, fun _ => hadd hs⟩, fun _ => rfl⟩)
  -- the pairs of signs
  all_goals
    next rest hskip =>
    have hrest := hshorter (Flags.suffix_of_skip hskip) (List.suffix_cons _ rest)
    refine .inr (.inr ⟨_, _, rest, ⟨hrest.1, hrest.2, fun _ hall => ?_⟩, fun _ => rfl⟩)
    obtain ⟨hb, houter⟩ := List.forall_mem_cons.1 hall
    exact List.forall_mem_cons.2 ⟨hb.combine _, houter⟩

theorem readItems_spec {m : Nat} {outer : List Bracket}
    (h : readItems f m b outer text = some (n, rest)) :
    rest <:+ text ∧ ('^' ∉ text → (∀ o ∈ b :: outer, o.Direct) → n.set.Kept) := by
  induction m generalizing b outer text with
  | zero => cases h
  | succ m ih =>
    rcases readItems_succ f b outer text with
      ⟨result, rest', hspec, heq⟩ | heq | ⟨b', outer', rest', ⟨hrest, -, hdirect⟩, heq⟩
    · rw [heq] at h
      cases h
      exact hspec
    · rw [heq] at h
      cases h
    · rw [heq] at h
      obtain ⟨hsuffix, hkept⟩ := ih h
      refine ⟨hsuffix.trans hrest, fun hno hall => hkept (fun hmem => ?_) (hdirect hno hall)⟩
      exact hno (hrest.subset hmem)

/-- As many rounds as there are characters are enough, and any more come to the same. -/
theorem readItems_congr {m k : Nat} (hm : text.length ≤ m) (hk : text.length ≤ k) (b : Bracket)
    (outer : List Bracket) : readItems f m b outer text = readItems f k b outer text := by
  have hnil : ∀ m b outer, readItems f m b outer [] = none := by
    intro m b outer
    cases m <;> rfl
  induction m generalizing k b outer text with
  | zero =>
    obtain rfl := List.length_eq_zero_iff.1 (Nat.le_zero.1 hm)
    rw [hnil, hnil]
  | succ m ih =>
    cases k with
    | zero =>
      obtain rfl := List.length_eq_zero_iff.1 (Nat.le_zero.1 hk)
      rw [hnil, hnil]
    | succ k =>
      rcases readItems_succ f b outer text with
        ⟨result, rest, -, heq⟩ | heq | ⟨b', outer', rest, ⟨-, hlt, -⟩, heq⟩
      · rw [heq, heq]
      · rw [heq, heq]
      · rw [heq, heq]
        exact ih (by omega) (by omega) b' outer'

/-- **The set in brackets is in order**, if there is no caret in the text. -/
theorem read_spec (h : read f text = some (n, rest)) :
    rest <:+ text ∧ ('^' ∉ text → n.set.Kept) := by
  obtain ⟨⟨b, inside⟩, hstart, h⟩ := Option.bind_eq_some_iff.1 h
  obtain ⟨hinside, hdirect⟩ := start_spec hstart
  obtain ⟨hrest, hkept⟩ := readItems_spec h
  refine ⟨hrest.trans hinside, fun hno => hkept (fun hmem => hno (hinside.subset hmem)) ?_⟩
  exact List.forall_mem_cons.2 ⟨hdirect hno, by simp⟩

end Bracket

end ChipEight.Pattern
