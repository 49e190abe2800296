import ChipEight.Pattern.Reader
import ChipEight.Proofs.Pattern.Brackets
import ChipEight.Proofs.Pattern.Groups

namespace ChipEight.Pattern

/-!
# Reading a pattern — each round goes on in the text

Whatever is read at the start of a text leaves an end of it behind. A round of the reader takes a
character besides, so as many rounds as there are characters are enough, and any more come to the
same. The sets of a pattern are in order, since each part starts with one that is and groups leave
their parts in order; only in brackets a caret can put a set out of order.

* `Opening.read_suffix`, `readBounds_spec` — what is left of a text;
* `Reading.next_suffix`, `Reading.run_congr` — rounds, and more of them than are needed;
* `Reading.Kept`, `Reading.Kept.next` — readings with sets in order, part by part;
* `kept_of_ofText?` — texts without brackets, or without a caret.
-/

variable {f : Flags} {text rest : List Char}

/-! ### Blanks and counts -/

namespace Flags

theorem read_suffix {g : Flags} {on : Bool} {seen : List Char}
    (h : f.read on seen text = some (g, rest)) : rest <:+ text := by
  induction text generalizing f on seen with
  | nil => cases h
  | cons c later ih =>
    unfold read at h
    split at h
    case isTrue =>
      split at h
      case isTrue => cases h
      case isFalse => cases h; exact List.suffix_refl _
    case isFalse =>
      split at h
      case isTrue => cases h
      case isFalse =>
        split at h
        case isTrue => exact (ih h).trans (List.suffix_cons c _)
        case isFalse =>
          split at h
          case h_1 => exact (ih h).trans (List.suffix_cons c _)
          case h_2 => cases h

end Flags

theorem skip_blank_suffix (text : List Char) : Blank.skip text <:+ text :=
  List.dropWhile_suffix Blank.holds

theorem readCount_suffix {n : Nat} (h : readCount f text = some (n, rest)) : rest <:+ text := by
  unfold readCount at h
  simp only at h
  split at h
  case isTrue => cases h
  case isFalse =>
    cases h
    exact (skip_blank_suffix _).trans <| (f.span_suffix _ _ _).trans <|
      (skip_blank_suffix _).trans (f.skip_suffix text)

/-- The bounds of a repetition are in order, and an end of the text is left. -/
theorem readBounds_spec {least : Nat} {most : Option Nat}
    (h : readBounds f text = some ((least, most), rest)) :
    (∀ m ∈ most, least ≤ m) ∧ rest <:+ text := by
  obtain ⟨⟨n, behind⟩, hcount, h⟩ := Option.bind_eq_some_iff.1 h
  have hbehind := readCount_suffix hcount
  simp only at h
  split at h
  case h_1 later =>
    cases h
    exact ⟨fun m hm => by cases hm; exact Nat.le_refl _, (List.suffix_cons _ _).trans hbehind⟩
  case h_2 later =>
    have hlater : later <:+ text := (List.suffix_cons _ _).trans hbehind
    split at h
    case h_1 last hskip =>
      cases h
      exact ⟨fun m hm => (by cases hm),
        ((List.suffix_cons _ _).trans (Flags.suffix_of_skip hskip)).trans hlater⟩
    case h_2 =>
      split at h
      case h_1 m last hsecond =>
        split at h
        case isTrue hle =>
          cases h
          exact ⟨fun m hm => by cases hm; exact hle,
            (List.suffix_cons _ _).trans <| (readCount_suffix hsecond).trans <|
              (f.skip_suffix later).trans hlater⟩
        case isFalse => cases h
      case h_2 => cases h
  case h_3 => cases h

theorem splitMark_suffix (text : List Char) : (splitMark text).2 <:+ text := by
  unfold splitMark
  split
  case h_1 later => exact List.suffix_cons _ _
  case h_2 => exact List.suffix_refl _

/-! ### Openings -/

theorem splitGroupName_suffix {name : List Char} (h : splitGroupName text = some (name, rest)) :
    rest <:+ text := by
  unfold splitGroupName at h
  simp only at h
  split at h
  case h_1 c later hdrop =>
    split at h
    case isTrue =>
      cases h
      exact (List.suffix_cons c _).trans (hdrop ▸ List.drop_suffix _ text)
    case isFalse => cases h
  case h_2 => cases h

theorem Opening.read_suffix {o : Opening} (h : Opening.read f text = some (o, rest)) :
    rest <:+ text := by
  unfold Opening.read at h
  simp only at h
  split at h
  case h_1 later hskip =>
    obtain ⟨⟨name, behind⟩, hname, heq⟩ := Option.map_eq_some_iff.1 h
    cases heq
    exact (splitGroupName_suffix hname).trans <| (List.suffix_append ['?', 'P', '<'] _).trans
      (Flags.suffix_of_skip hskip)
  case h_2 later hskip =>
    obtain ⟨⟨name, behind⟩, hname, heq⟩ := Option.map_eq_some_iff.1 h
    cases heq
    exact (splitGroupName_suffix hname).trans <| (List.suffix_append ['?', '<'] _).trans
      (Flags.suffix_of_skip hskip)
  case h_3 later _ _ hskip =>
    have hlater : later <:+ text :=
      (List.suffix_cons '?' _).trans (Flags.suffix_of_skip hskip)
    split at h
    case h_1 behind hread =>
      cases h
      exact ((List.suffix_cons _ _).trans (Flags.read_suffix hread)).trans hlater
    case h_2 c behind _ hread =>
      split at h
      case isTrue => cases h
      case isFalse =>
        cases h
        exact ((List.suffix_cons c _).trans (Flags.read_suffix hread)).trans hlater
    case h_3 => cases h
  case h_4 =>
    cases h
    exact f.skip_suffix text

/-! ### Escapes -/

theorem Escape.kept_pattern? {e : Escape} {p : Pattern} (he : e.Kept)
    (h : e.pattern? f = some p) : p.Kept := by
  cases e with
  | char c => exact (Flags.matches_char? h).1
  | byte c =>
    rw [pattern?] at h
    obtain ⟨-, h⟩ := Option.ite_none_right_eq_some.1 h
    exact (Flags.matches_char? h).1
  | letters s negated =>
    obtain ⟨t, ht, rfl⟩ := Option.map_eq_some_iff.1 h
    unfold Flags.class? at ht
    obtain ⟨-, heq⟩ := Option.ite_none_left_eq_some.1 ht
    cases heq
    exact kept_ofSet he _
  | place e => cases h; trivial
  | word e => cases h; trivial

/-! ### Readings -/

namespace Reading

variable {r r' : Reading} {c : Char}

theorem repeat?_spec {least : Nat} {most : Option Nat} (h : r.repeat? least most text = some r') :
    r'.rest <:+ text ∧ r'.outer = r.outer
      ∧ ∃ marked, r.group.repeat? least most marked = some r'.group := by
  obtain ⟨g, hg, rfl⟩ := Option.map_eq_some_iff.1 h
  exact ⟨splitMark_suffix text, rfl, _, hg⟩

theorem enter_spec {o : Opening} (h : r.enter o text = some r') :
    r'.rest = text ∧ ((∃ f, r'.group = r.group.setFlags f ∧ r'.outer = r.outer)
      ∨ ∃ f number, r'.group = .opened f number ∧ r'.outer = r.group :: r.outer) := by
  cases o with
  | setting f => cases h; exact ⟨rfl, .inl ⟨f, rfl, rfl⟩⟩
  | group f captures name =>
    cases captures with
    | false => cases h; exact ⟨rfl, .inr ⟨f, none, rfl, rfl⟩⟩
    | true =>
      cases name with
      | none => cases h; exact ⟨rfl, .inr ⟨f, _, rfl, rfl⟩⟩
      | some name =>
        obtain ⟨-, heq⟩ := Option.ite_none_left_eq_some.1 h
        cases heq
        exact ⟨rfl, .inr ⟨f, _, rfl, rfl⟩⟩

theorem leave_spec (h : r.leave text = some r') :
    r'.rest = text ∧ ∃ g outer, r.outer = g :: outer ∧ r'.outer = outer
      ∧ r'.group = g.add r.group.close := by
  unfold leave at h
  split at h
  case h_1 => cases h
  case h_2 g outer houter =>
    cases h
    exact ⟨rfl, g, outer, houter, rfl, rfl⟩

/-- The sets in a reading are in order. -/
structure Kept (r : Reading) : Prop where
  /-- Those in the innermost group. -/
  group : r.group.Kept
  /-- Those in the groups around it. -/
  outer : ∀ g ∈ r.outer, g.Kept

theorem kept_start (text : List Char) : (start text).Kept :=
  ⟨Group.kept_opened _ _, fun _ h => absurd h List.not_mem_nil⟩

/-- A round leaves an end of the text behind. -/
theorem next_suffix (h : r.next c text = some r') : r'.rest <:+ text := by
  unfold next at h
  simp only at h
  split at h
  -- a stroke
  case h_1 => cases h; exact List.suffix_refl _
  -- an opening: it starts a group or sets flags
  case h_2 =>
    obtain ⟨⟨o, behind⟩, ho, h⟩ := Option.bind_eq_some_iff.1 h
    exact (enter_spec h).1 ▸ Opening.read_suffix ho
  -- a closing
  case h_3 => exact (leave_spec h).1 ▸ List.suffix_refl _
  -- the marks of repetitions
  case h_4 => exact (repeat?_spec h).1
  case h_5 => exact (repeat?_spec h).1
  case h_6 => exact (repeat?_spec h).1
  -- bounds in braces
  case h_7 =>
    obtain ⟨⟨⟨least, most⟩, behind⟩, hbounds, h⟩ := Option.bind_eq_some_iff.1 h
    exact (repeat?_spec h).1.trans ((Flags.skip_suffix _ _).trans (readBounds_spec hbounds).2)
  -- brackets
  case h_8 =>
    obtain ⟨⟨n, behind⟩, hn, rfl⟩ := Option.map_eq_some_iff.1 h
    exact (Bracket.read_spec hn).1
  -- an escape
  case h_9 =>
    obtain ⟨⟨e, behind⟩, he, h⟩ := Option.bind_eq_some_iff.1 h
    obtain ⟨p, -, rfl⟩ := Option.map_eq_some_iff.1 h
    exact (Escape.read_spec he).2
  -- the dot
  case h_10 =>
    obtain ⟨s, -, rfl⟩ := Option.map_eq_some_iff.1 h
    exact List.suffix_refl _
  -- edges of lines
  case h_11 => cases h; exact List.suffix_refl _
  case h_12 => cases h; exact List.suffix_refl _
  -- any other character
  case h_13 =>
    obtain ⟨p, -, rfl⟩ := Option.map_eq_some_iff.1 h
    exact List.suffix_refl _

/-- A round that reads no brackets, or brackets without a caret, leaves the sets in order. -/
theorem Kept.next (hr : r.Kept) (hc : c ≠ '[' ∨ '^' ∉ text) (h : r.next c text = some r') :
    r'.Kept := by
  have hrepeat : ∀ {least most text}, r.repeat? least most text = some r' → r'.Kept := by
    intro least most text h
    obtain ⟨-, houter, marked, hg⟩ := repeat?_spec h
    exact ⟨hr.group.repeat? hg, houter ▸ hr.outer⟩
  have hleaf : ∀ {p : Pattern} (rest : List Char), p.Kept → (r.addLeaf p rest).Kept :=
    fun _ hp => ⟨hr.group.add hp, hr.outer⟩
  unfold Reading.next at h
  simp only at h
  split at h
  -- a stroke
  case h_1 => cases h; exact ⟨hr.group.stroke, hr.outer⟩
  -- an opening: it starts a group or sets flags
  case h_2 =>
    obtain ⟨⟨o, behind⟩, -, h⟩ := Option.bind_eq_some_iff.1 h
    obtain ⟨-, ⟨f, hgroup, houter⟩ | ⟨f, number, hgroup, houter⟩⟩ := enter_spec h
    · exact ⟨hgroup ▸ hr.group.setFlags f, houter ▸ hr.outer⟩
    · exact ⟨hgroup ▸ Group.kept_opened f number,
        houter ▸ List.forall_mem_cons.2 ⟨hr.group, hr.outer⟩⟩
  -- a closing
  case h_3 =>
    obtain ⟨-, g, outer, houter, houter', hgroup⟩ := leave_spec h
    obtain ⟨hg, hrest⟩ := List.forall_mem_cons.1 (houter ▸ hr.outer)
    exact ⟨hgroup ▸ hg.add hr.group.close, houter' ▸ hrest⟩
  -- the marks of repetitions
  case h_4 => exact hrepeat h
  case h_5 => exact hrepeat h
  case h_6 => exact hrepeat h
  -- bounds in braces
  case h_7 =>
    obtain ⟨⟨⟨least, most⟩, behind⟩, -, h⟩ := Option.bind_eq_some_iff.1 h
    exact hrepeat h
  -- brackets
  case h_8 =>
    obtain ⟨⟨n, behind⟩, hn, rfl⟩ := Option.map_eq_some_iff.1 h
    have hno : '^' ∉ text := hc.resolve_left fun hne => hne rfl
    exact ⟨hr.group.add (kept_ofSet ((Bracket.read_spec hn).2 hno) _), hr.outer⟩
  -- an escape
  case h_9 =>
    obtain ⟨⟨e, behind⟩, he, h⟩ := Option.bind_eq_some_iff.1 h
    obtain ⟨p, hp, rfl⟩ := Option.map_eq_some_iff.1 h
    exact hleaf _ (Escape.kept_pattern? (Escape.read_spec he).1 hp)
  -- the dot
  case h_10 =>
    obtain ⟨s, hs, rfl⟩ := Option.map_eq_some_iff.1 h
    exact hleaf _ (kept_ofSet (Flags.holds_anyChar hs).1 _)
  -- edges of lines
  case h_11 => cases h; exact hleaf _ trivial
  case h_12 => cases h; exact hleaf _ trivial
  -- any other character
  case h_13 =>
    obtain ⟨p, hp, rfl⟩ := Option.map_eq_some_iff.1 h
    exact hleaf _ (Flags.matches_char? hp).1

/-- One round more than there are characters is enough, and any more come to the same. -/
theorem run_congr {m n : Nat} (hm : r.rest.length < m) (hn : r.rest.length < n) :
    r.run m = r.run n := by
  induction m generalizing n r with
  | zero => exact absurd hm (Nat.not_lt_zero _)
  | succ m ih =>
    cases n with
    | zero => exact absurd hn (Nat.not_lt_zero _)
    | succ n =>
      unfold run
      split
      case h_1 => rfl
      case h_2 c rest hskip =>
        cases hnext : r.next c rest with
        | none => rfl
        | some r' =>
          have hle := (Flags.suffix_of_skip hskip).length_le
          have hrest := (next_suffix hnext).length_le
          rw [List.length_cons] at hle
          exact ih (by omega) (by omega)

/-- A text without brackets, or without a caret, leaves the sets in order. -/
theorem Kept.run {n : Nat} {p : Part} (hr : r.Kept) (hrest : '[' ∉ r.rest ∨ '^' ∉ r.rest)
    (h : r.run n = some p) : p.pattern.Kept := by
  induction n generalizing r with
  | zero => cases h
  | succ n ih =>
    unfold Reading.run at h
    split at h
    case h_1 =>
      obtain ⟨-, heq⟩ := Option.ite_none_right_eq_some.1 h
      cases heq
      exact hr.group.content
    case h_2 c rest hskip =>
      obtain ⟨r', hnext, h⟩ := Option.bind_eq_some_iff.1 h
      have hsuffix := Flags.suffix_of_skip hskip
      have hbehind : rest <:+ r.rest := (List.suffix_cons c rest).trans hsuffix
      have hc : c ≠ '[' ∨ '^' ∉ rest := by
        refine hrest.imp (fun hno => ?_) fun hno hmem => hno (hbehind.subset hmem)
        rintro rfl
        exact hno (hsuffix.subset List.mem_cons_self)
      have hlater := (next_suffix hnext).trans hbehind
      have hrest' : '[' ∉ r'.rest ∨ '^' ∉ r'.rest :=
        hrest.imp (fun hno hmem => hno (hlater.subset hmem))
          fun hno hmem => hno (hlater.subset hmem)
      exact ih (hr.next hc hnext) hrest' h

end Reading

/-- **The sets of a pattern are in order**, if there are no brackets in its text or no caret. -/
theorem kept_of_ofText? {p : Pattern} (hplain : '[' ∉ text ∨ '^' ∉ text)
    (h : ofText? text = some p) : p.Kept := by
  unfold ofText? at h
  split at h
  case h_1 part hrun =>
    obtain ⟨-, heq⟩ := Option.ite_none_right_eq_some.1 h
    cases heq
    exact (Reading.kept_start text).run hplain hrun
  case h_2 => cases h

end ChipEight.Pattern
