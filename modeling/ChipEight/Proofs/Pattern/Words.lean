import ChipEight.Pattern.Words
import ChipEight.Proofs.Pattern.Languages
import ChipEight.Proofs.Pattern.PlainForms
import ChipEight.Proofs.Pattern.Search

namespace ChipEight.Pattern

/-!
# Words — where a line has a match if it has a word in it

Words describe a language if each of its texts starts with one of them, is all of it where the word
is whole, and whole words are texts of the language. The words of a pattern describe its matches,
part by part. From there on words are only shortened, or dropped for the sake of others that they
start with. So whole words that are left at the end are matches, every match starts with one of
them, and they are all that a line has to be searched for.

* `Word.Shortens`, `Word.Allows` — words in place of others, and the texts that a word allows for;
* `Describes`, `describe_gather` — words that describe a language;
* `Selects`, `Words.selects_chosen` — the words that are chosen in place of all;
* `found_iff_of_wholeWords` — lines with a match.
-/

variable {p q : Pattern} {L M : Language UInt8}

/-! ### Shorter words -/

/-- A word in place of another: it is shorter or of the same length, and whole only if it is that
word. -/
def Word.Shortens (w v : Word) : Prop :=
  w.bytes <+: v.bytes ∧ (w.whole = true → w = v)

/-- The texts that a word allows for. -/
def Word.Allows (w : Word) (bs : List UInt8) : Prop :=
  w.bytes <+: bs ∧ (w.whole = true → bs = w.bytes)

namespace Word

variable {u v w : Word} {bs ds : List UInt8}

theorem Shortens.refl (w : Word) : w.Shortens w :=
  ⟨List.prefix_refl _, fun _ => rfl⟩

theorem Shortens.trans (hw : w.Shortens v) (hv : v.Shortens u) : w.Shortens u := by
  refine ⟨hw.1.trans hv.1, fun hwhole => ?_⟩
  obtain rfl := hw.2 hwhole
  exact hv.2 hwhole

theorem Shortens.allows (hw : w.Shortens v) (h : v.Allows bs) : w.Allows bs := by
  refine ⟨hw.1.trans h.1, fun hwhole => ?_⟩
  obtain rfl := hw.2 hwhole
  exact h.2 hwhole

theorem shortens_cut (n : Nat) (w : Word) : (w.cut n).Shortens w := by
  unfold cut
  split
  case isTrue => exact .refl w
  case isFalse => exact ⟨List.take_prefix n w.bytes, fun h => by cases h⟩

theorem shortens_opened (w : Word) : w.opened.Shortens w :=
  ⟨List.prefix_refl _, fun h => by cases h⟩

theorem shortens_merged (h : w.bytes = v.bytes) :
    Shortens ⟨w.bytes, w.whole && v.whole⟩ w ∧ Shortens ⟨w.bytes, w.whole && v.whole⟩ v := by
  obtain ⟨bytes, whole⟩ := w
  obtain ⟨bytes', whole'⟩ := v
  obtain rfl : bytes = bytes' := h
  simp +contextual [Shortens]

/-- A word that is not whole allows for more behind it. -/
theorem Allows.append (h : w.Allows bs) (hopen : w.whole = false) (ds : List UInt8) :
    w.Allows (bs ++ ds) :=
  ⟨List.prefix_append_of_prefix h.1, fun hwhole => absurd hwhole (by simp [hopen])⟩

theorem Allows.follow (hw : w.Allows bs) (hwhole : w.whole = true) (hv : v.Allows ds) :
    (w.follow v).Allows (bs ++ ds) := by
  rw [hw.2 hwhole]
  exact ⟨(List.prefix_append_right_inj w.bytes).2 hv.1, fun h => congrArg _ (hv.2 h)⟩

end Word

/-- Words in place of others, one for each. -/
structure Shortening (ws vs : List Word) : Prop where
  /-- For each word there is one in its place. -/
  place : ∀ v ∈ vs, ∃ w ∈ ws, w.Shortens v
  /-- Each word is in place of another. -/
  source : ∀ w ∈ ws, ∃ v ∈ vs, w.Shortens v

namespace Shortening

theorem refl (ws : List Word) : Shortening ws ws :=
  ⟨fun w hw => ⟨w, hw, .refl w⟩, fun w hw => ⟨w, hw, .refl w⟩⟩

theorem trans {us vs ws : List Word} (hw : Shortening ws vs) (hv : Shortening vs us) :
    Shortening ws us := by
  constructor
  · intro u hu
    obtain ⟨v, hv', hvu⟩ := hv.place u hu
    obtain ⟨w, hw', hwv⟩ := hw.place v hv'
    exact ⟨w, hw', hwv.trans hvu⟩
  · intro w hw'
    obtain ⟨v, hv', hwv⟩ := hw.source w hw'
    obtain ⟨u, hu, hvu⟩ := hv.source v hv'
    exact ⟨u, hu, hwv.trans hvu⟩

theorem map {f : Word → Word} (hf : ∀ w, (f w).Shortens w) (ws : List Word) :
    Shortening (ws.map f) ws := by
  constructor
  · exact fun v hv => ⟨f v, List.mem_map_of_mem hv, hf v⟩
  · intro w hw
    obtain ⟨v, hv, rfl⟩ := List.mem_map.1 hw
    exact ⟨v, hv, hf v⟩

theorem append {us vs ws xs : List Word} (h : Shortening us vs) (h' : Shortening ws xs) :
    Shortening (us ++ ws) (vs ++ xs) := by
  constructor
  · intro v hv
    rcases List.mem_append.1 hv with hv | hv
    · obtain ⟨u, hu, huv⟩ := h.place v hv
      exact ⟨u, List.mem_append_left _ hu, huv⟩
    · obtain ⟨w, hw, hwv⟩ := h'.place v hv
      exact ⟨w, List.mem_append_right _ hw, hwv⟩
  · intro u hu
    rcases List.mem_append.1 hu with hu | hu
    · obtain ⟨v, hv, huv⟩ := h.source u hu
      exact ⟨v, List.mem_append_left _ hv, huv⟩
    · obtain ⟨x, hx, hux⟩ := h'.source u hu
      exact ⟨x, List.mem_append_right _ hx, hux⟩

/-- Doubles that are merged stand for each of them. -/
theorem tidied (ws : List Word) : Shortening (Words.tidied ws) ws := by
  induction ws with
  | nil => exact .refl []
  | cons w rest ih =>
    unfold Words.tidied
    split
    case h_1 v others hrest =>
      rw [hrest] at ih
      have hcons : Shortening (w :: v :: others) (w :: rest) := append (.refl [w]) ih
      split
      case isTrue hsame =>
        -- one word stands for the two, whole if both are
        obtain ⟨hw, hv⟩ := Word.shortens_merged hsame
        refine trans ⟨?_, ?_⟩ hcons
        · intro u hu
          rcases List.mem_cons.1 hu with rfl | hu
          · exact ⟨_, List.mem_cons_self, hw⟩
          rcases List.mem_cons.1 hu with rfl | hu
          · exact ⟨_, List.mem_cons_self, hv⟩
          · exact ⟨u, List.mem_cons_of_mem _ hu, .refl u⟩
        · intro u hu
          rcases List.mem_cons.1 hu with rfl | hu
          · exact ⟨w, List.mem_cons_self, hw⟩
          · exact ⟨u, by simp [hu], .refl u⟩
      case isFalse => exact hcons
    case h_2 hrest =>
      rw [hrest] at ih
      exact append (.refl [w]) ih

end Shortening

/-! ### Words that describe a language -/

/-- Words that describe a language: each of its texts is allowed for, and whole words are texts of
the language. -/
structure Describes (ws : List Word) (L : Language UInt8) : Prop where
  /-- Each text is allowed for. -/
  allows : ∀ bs ∈ L, ∃ w ∈ ws, w.Allows bs
  /-- Whole words are texts. -/
  whole : ∀ w ∈ ws, w.whole = true → w.bytes ∈ L

/-- Words that describe a language, if there are not too many. -/
def Words.Describe (ws : Words) (L : Language UInt8) : Prop :=
  ∀ l ∈ ws, Describes l L

variable {ws vs : List Word}

theorem Shortening.describes (h : Shortening ws vs) (hvs : Describes vs L) : Describes ws L := by
  constructor
  · intro bs hbs
    obtain ⟨v, hv, hallows⟩ := hvs.allows bs hbs
    obtain ⟨w, hw, hwv⟩ := h.place v hv
    exact ⟨w, hw, hwv.allows hallows⟩
  · intro w hw hwhole
    obtain ⟨v, hv, hwv⟩ := h.source w hw
    obtain rfl := hwv.2 hwhole
    exact hvs.whole w hv hwhole

theorem Describes.append (hws : Describes ws L) (hvs : Describes vs M) :
    Describes (ws ++ vs) (L + M) := by
  constructor
  · intro bs hbs
    rcases (Language.mem_add L M bs).1 hbs with hbs | hbs
    · obtain ⟨w, hw, h⟩ := hws.allows bs hbs
      exact ⟨w, List.mem_append_left _ hw, h⟩
    · obtain ⟨v, hv, h⟩ := hvs.allows bs hbs
      exact ⟨v, List.mem_append_right _ hv, h⟩
  · intro w hw hwhole
    rw [Language.mem_add]
    rcases List.mem_append.1 hw with hw | hw
    · exact .inl (hws.whole w hw hwhole)
    · exact .inr (hvs.whole w hw hwhole)

/-- Words that are not whole describe any texts that start with those of the language. -/
theorem Describes.opened (hws : Describes ws L) (hopen : ∀ w ∈ ws, w.whole = false)
    (hM : ∀ bs ∈ M, ∃ ds ∈ L, ds <+: bs) : Describes ws M := by
  constructor
  · intro bs hbs
    obtain ⟨ds, hds, es, rfl⟩ := hM bs hbs
    obtain ⟨w, hw, h⟩ := hws.allows ds hds
    exact ⟨w, hw, h.append (hopen w hw) es⟩
  · intro w hw hwhole
    exact absurd hwhole (by simp [hopen w hw])

/-- Words with others behind those that are whole. -/
theorem Describes.follow (hws : Describes ws L) (hvs : Describes vs M) :
    Describes (ws.flatMap fun w => if w.whole then vs.map w.follow else [w]) (L * M) := by
  constructor
  · intro bs hbs
    obtain ⟨ds, hds, es, hes, rfl⟩ := Language.mem_mul.1 hbs
    obtain ⟨w, hw, hallows⟩ := hws.allows ds hds
    cases hwhole : w.whole with
    | true =>
      obtain ⟨v, hv, hallows'⟩ := hvs.allows es hes
      exact ⟨w.follow v, List.mem_flatMap.2 ⟨w, hw, by simp [hwhole]; exact ⟨v, hv, rfl⟩⟩,
        hallows.follow hwhole hallows'⟩
    | false =>
      exact ⟨w, List.mem_flatMap.2 ⟨w, hw, by simp [hwhole]⟩, hallows.append hwhole es⟩
  · intro u hu hwhole
    obtain ⟨w, hw, hu⟩ := List.mem_flatMap.1 hu
    split at hu
    case isTrue hwhole' =>
      obtain ⟨v, hv, rfl⟩ := List.mem_map.1 hu
      exact Language.mem_mul.2 ⟨_, hws.whole w hw hwhole', _, hvs.whole v hv hwhole, rfl⟩
    case isFalse hopen =>
      obtain rfl := List.mem_singleton.1 hu
      exact absurd hwhole hopen

theorem describes_empty : Describes [⟨[], true⟩] 1 := by
  constructor
  · intro bs hbs
    obtain rfl := (Language.mem_one bs).1 hbs
    exact ⟨_, List.mem_cons_self, List.prefix_refl _, fun _ => rfl⟩
  · intro w hw _
    obtain rfl := List.mem_singleton.1 hw
    exact (Language.mem_one _).2 rfl

namespace Words.Describe

variable {ws vs : Words}

theorem none : Describe none L :=
  fun _ h => by cases h

theorem some {l : List Word} (h : Describes l L) : Describe (some l) L :=
  fun _ hl => by cases hl; exact h

theorem ofEmpty : Words.ofEmpty.Describe 1 :=
  .some describes_empty

theorem opened (hws : ws.Describe L) (hM : ∀ bs ∈ M, ∃ ds ∈ L, ds <+: bs) :
    ws.opened.Describe M := by
  intro l hl
  obtain ⟨m, hm, rfl⟩ := Option.map_eq_some_iff.1 hl
  refine ((Shortening.map Word.shortens_opened m).describes (hws m hm)).opened ?_ hM
  intro w hw
  obtain ⟨v, -, rfl⟩ := List.mem_map.1 hw
  rfl

theorem unbounded {l : List Word} (h : Describes l L)
    (hM : ∀ bs ∈ M, ∃ ds ∈ L, ds <+: bs) : (joined.unbounded l).Describe M := by
  have hopened : Describe (Words.opened (.some l)) M := (some h).opened hM
  unfold joined.unbounded
  split
  case isTrue => exact .none
  case isFalse =>
    exact .some ((Shortening.map (Word.shortens_cut maxLength) _).describes (hopened _ rfl))

theorem joined (hws : ws.Describe L) (hvs : vs.Describe M) : (ws.joined vs).Describe (L * M) := by
  cases ws with
  | none => exact .none
  | some ws =>
    have hws := hws ws rfl
    cases vs with
    | none => exact unbounded hws fun bs => exists_prefix_of_mem_mul
    | some vs =>
      have hvs := hvs vs rfl
      unfold Words.joined
      simp only
      split
      case isTrue => exact unbounded hws fun bs => exists_prefix_of_mem_mul
      case isFalse =>
        refine .some ?_
        refine (Shortening.map (Word.shortens_cut maxLength) _).describes ?_
        exact (Shortening.tidied _).describes (hws.follow hvs)

/-- Words put behind others, unless nothing can be learnt from them. -/
theorem put (hws : ws.Describe L) (hvs : vs.Describe M) :
    ((Gathered.behind ws).put vs).Describe (L * M) := by
  unfold Gathered.put
  simp only
  split
  case isTrue hopen =>
    intro l hl
    refine (hws l hl).opened (fun w hw => ?_) fun bs => exists_prefix_of_mem_mul
    cases hl
    exact Bool.not_eq_true' _ ▸ List.all_eq_true.1 hopen w hw
  case isFalse => exact hws.joined hvs

theorem added (hws : ws.Describe L) (hvs : vs.Describe M) : (ws.added vs).Describe (L + M) := by
  unfold Words.added
  split
  case h_1 ws vs =>
    have hws := hws ws rfl
    have hvs := hvs vs rfl
    split
    case isTrue => exact .some ((Shortening.tidied _).describes (hws.append hvs))
    case isFalse =>
      have hshort : ∀ l : List Word, Shortening (tidied (l.map (·.cut 4))) l := fun l =>
        (Shortening.tidied _).trans (Shortening.map (Word.shortens_cut 4) l)
      simp only
      split
      case isTrue =>
        refine .some ((Shortening.tidied _).describes ?_)
        exact ((hshort ws).describes hws).append ((hshort vs).describes hvs)
      case isFalse => exact .none
  case h_2 => exact .none

theorem power (hws : ws.Describe L) (n : Nat) : (ws.power n).Describe (L ^ n) := by
  induction n with
  | zero => exact pow_zero L ▸ ofEmpty
  | succ n ih =>
    rw [pow_succ]
    exact ih.put hws

/-- Words with more to come, and the empty word, describe what starts with the words or is empty. -/
theorem opened_or_empty (hws : ws.Describe L) (hnil : [] ∈ M)
    (hM : ∀ bs ∈ M, bs = [] ∨ ∃ ds ∈ L, ds <+: bs) :
    (Words.ofEmpty.added ws.opened).Describe M ∧ (ws.opened.added Words.ofEmpty).Describe M := by
  let N : Language UInt8 := {bs | bs ∈ M ∧ ∃ ds ∈ L, ds <+: bs}
  have hN : M = 1 + N := by
    ext bs
    rw [Language.mem_add]
    constructor
    · exact fun hbs => (hM bs hbs).imp id fun h => ⟨hbs, h⟩
    · rintro (hbs | hbs)
      · exact (Language.mem_one bs).1 hbs ▸ hnil
      · exact hbs.1
  have hopened : ws.opened.Describe N := hws.opened fun bs hbs => hbs.2
  rw [hN]
  exact ⟨ofEmpty.added hopened, add_comm N 1 ▸ hopened.added ofEmpty⟩

/-- The words of a repetition. -/
theorem times (hws : ws.Describe L) (least : Nat) (most : Option Nat) (sparing : Bool) :
    (ws.times least most sparing).Describe (timesOf L least most) := by
  unfold Words.times
  split
  case isTrue hzero =>
    subst hzero
    by_cases hone : most = .some 1
    · simp only [hone, if_true, timesOf_one]
      split
      case isTrue => exact ofEmpty.added hws
      case isFalse => exact add_comm L 1 ▸ hws.added ofEmpty
    · -- either nothing is repeated, or the words of the first occurrence stand in front
      have hfirst : ∀ bs ∈ timesOf L 0 most, bs = [] ∨ ∃ ds ∈ L, ds <+: bs := by
        rintro bs ⟨n, -, -, hbs⟩
        cases n with
        | zero => exact .inl ((Language.mem_one bs).1 (pow_zero L ▸ hbs))
        | succ n => exact .inr (exists_prefix_of_mem_mul (pow_succ' L n ▸ hbs))
      obtain ⟨hsparing, hgreedy⟩ := hws.opened_or_empty (nil_mem_timesOf most) hfirst
      simp only [hone, if_false]
      split
      case isTrue => exact hsparing
      case isFalse => exact hgreedy
  case isFalse =>
    have hpower := hws.power (min least maxTimes)
    simp only
    split
    case isTrue hexact =>
      obtain ⟨rfl, hfew⟩ := hexact
      rw [Nat.min_eq_left hfew] at hpower ⊢
      exact timesOf_self least ▸ hpower
    case isFalse =>
      refine hpower.opened ?_
      rintro bs ⟨n, hleast, -, hbs⟩
      exact exists_prefix_of_mem_pow (Nat.le_trans (Nat.min_le_left least maxTimes) hleast) hbs

end Words.Describe

/-! ### The words of patterns -/

theorem describe_textWords (cs : List Char) : (textWords cs).Describe (text cs).language := by
  have hword : Describes [⟨encoded cs, true⟩] (text cs).language := by
    constructor
    · rintro _ ⟨ds, rfl, hds⟩
      obtain rfl : ds = cs := hds
      exact ⟨_, List.mem_cons_self, List.prefix_refl _, fun _ => rfl⟩
    · intro w hw _
      obtain rfl := List.mem_singleton.1 hw
      exact ⟨cs, rfl, rfl⟩
  exact .some ((Shortening.map (Word.shortens_cut _) [_]).describes hword)

theorem le_foldl_add (l : List Nat) (n : Nat) :
    n ≤ l.foldl (· + ·) n ∧ ∀ m ∈ l, m ≤ l.foldl (· + ·) n := by
  induction l generalizing n with
  | nil => simp
  | cons k rest ih =>
    obtain ⟨hn, hrest⟩ := ih (n + k)
    rw [List.foldl_cons]
    exact ⟨by omega, List.forall_mem_cons.2 ⟨by omega, hrest⟩⟩

/-- The words of a set are its characters, if these are few. Among few code points between two
characters all are characters. -/
theorem describe_setWords {s : CharSet} (hs : s.Kept) (wide : Bool) :
    (setWords s).Describe (set s wide).language := by
  unfold setWords
  split
  case isFalse => exact .none
  case isTrue hfew =>
    refine .some ⟨?_, ?_⟩
    · rintro _ ⟨_, rfl, c, rfl, hc⟩
      obtain ⟨r, hr, hin⟩ := List.any_eq_true.1 hc
      have hin := of_decide_eq_true hin
      refine ⟨⟨String.utf8EncodeChar c, true⟩, List.mem_flatMap.2 ⟨r, hr, List.mem_map.2
        ⟨c.toNat - r.1, List.mem_range.2 (by omega), ?_⟩⟩, ?_⟩
      · rw [Nat.add_sub_cancel' hin.1, Char.ofNat_toNat]
      · simp [Word.Allows, encoded]
    · intro w hw _
      obtain ⟨r, hr, hw⟩ := List.mem_flatMap.1 hw
      obtain ⟨n, hn, rfl⟩ := List.mem_map.1 hw
      have hn := List.mem_range.1 hn
      have hsize := (le_foldl_add _ 0).2 _ (List.mem_map_of_mem (f := fun r => r.2 + 1 - r.1) hr)
      obtain ⟨-, hfirst, hlast⟩ := hs.codes r hr
      have hvalid : (r.1 + n).isValidChar := by
        simp only [Nat.isValidChar, Words.maxChars] at *
        omega
      refine ⟨[Char.ofNat (r.1 + n)], by simp [encoded], _, rfl, ?_⟩
      refine List.any_eq_true.2 ⟨r, hr, decide_eq_true ?_⟩
      rw [CharSet.toNat_ofNat hvalid]
      omega

/-- **The words of a pattern describe its matches**, put to words that describe others: behind them
those in a row, beside them those of either. -/
theorem describe_gather (hbare : p.isBare = true) (hkept : p.Kept) {ws : Words}
    (hws : ws.Describe L) :
    (gather (.behind ws) p).Describe (L * p.language)
      ∧ (gather (.beside ws) p).Describe (L + p.language) := by
  -- both at once, since parts in a row are put behind each other and alternatives beside
  induction p generalizing ws L with
  | empty =>
    rw [language_empty]
    exact ⟨hws.put .ofEmpty, hws.added .ofEmpty⟩
  | text cs => exact ⟨hws.put (describe_textWords cs), hws.added (describe_textWords cs)⟩
  | set s wide =>
    exact ⟨hws.put (describe_setWords hkept wide), hws.added (describe_setWords hkept wide)⟩
  | edge e => cases hbare
  | group number p => cases hbare
  | repeated p least most sparing ih =>
    have honce := (ih hbare hkept .ofEmpty).1
    rw [one_mul] at honce
    rw [language_repeated (p := p) hbare]
    exact ⟨hws.put (honce.times least most sparing), hws.added (honce.times least most sparing)⟩
  | join p q ihp ihq =>
    obtain ⟨hp, hq⟩ := Bool.and_eq_true_iff.1 hbare
    rw [language_join hp hq]
    constructor
    · rw [← mul_assoc]
      exact (ihq hq hkept.2 (ihp hp hkept.1 hws).1).1
    · -- beside other words, those in a row have to be put together on their own
      have hboth := (ihq hq hkept.2 (ihp hp hkept.1 .ofEmpty).1).1
      rw [one_mul] at hboth
      exact hws.added hboth
  | either p q ihp ihq =>
    obtain ⟨hp, hq⟩ := Bool.and_eq_true_iff.1 hbare
    rw [language_either]
    constructor
    · have hnone : Words.Describe (some []) 0 :=
        .some ⟨fun bs hbs => absurd hbs (Language.notMem_zero bs),
          fun w hw => absurd hw List.not_mem_nil⟩
      have hboth := (ihq hq hkept.2 (ihp hp hkept.1 hnone).2).2
      rw [zero_add] at hboth
      exact hws.put hboth
    · rw [← add_assoc]
      exact (ihq hq hkept.2 (ihp hp hkept.1 hws).2).2

/-! ### Words that are of use -/

/-- Words to search for in place of others: each of the others starts with one of them, and whole
ones are among them. -/
structure Selects (ws vs : List Word) : Prop where
  /-- Each of the others starts with a word. -/
  front : ∀ v ∈ vs, ∃ w ∈ ws, w.bytes <+: v.bytes
  /-- Whole words are among the others. -/
  whole : ∀ w ∈ ws, w.whole = true → w ∈ vs

theorem Shortening.selects (h : Shortening ws vs) : Selects ws vs := by
  constructor
  · intro v hv
    obtain ⟨w, hw, hwv⟩ := h.place v hv
    exact ⟨w, hw, hwv.1⟩
  · intro w hw hwhole
    obtain ⟨v, hv, hwv⟩ := h.source w hw
    exact hwv.2 hwhole ▸ hv

namespace Selects

variable {us xs : List Word}

theorem refl (ws : List Word) : Selects ws ws :=
  (Shortening.refl ws).selects

theorem trans (hws : Selects ws vs) (hvs : Selects vs us) : Selects ws us := by
  constructor
  · intro u hu
    obtain ⟨v, hv, hvu⟩ := hvs.front u hu
    obtain ⟨w, hw, hwv⟩ := hws.front v hv
    exact ⟨w, hw, hwv.trans hvu⟩
  · exact fun w hw hwhole => hvs.whole w (hws.whole w hw hwhole) hwhole

theorem append (h : Selects ws vs) (xs : List Word) : Selects (ws ++ xs) (vs ++ xs) := by
  constructor
  · intro v hv
    rcases List.mem_append.1 hv with hv | hv
    · obtain ⟨w, hw, hwv⟩ := h.front v hv
      exact ⟨w, List.mem_append_left _ hw, hwv⟩
    · exact ⟨v, List.mem_append_right _ hv, List.prefix_refl _⟩
  · intro w hw hwhole
    rcases List.mem_append.1 hw with hw | hw
    · exact List.mem_append_left _ (h.whole w hw hwhole)
    · exact List.mem_append_right _ hw

/-- Of words that start with an earlier one nothing is lost. -/
theorem reduced (ws : List Word) : Selects (Words.reduced ws) ws := by
  have hfold : ∀ (ws kept : List Word), Selects (ws.foldl (fun kept w =>
      if kept.any (·.bytes.isPrefixOf w.bytes) then kept else kept ++ [w]) kept) (kept ++ ws) := by
    intro ws
    induction ws with
    | nil => exact fun kept => (List.append_nil kept).symm ▸ refl kept
    | cons w rest ih =>
      intro kept
      have hsplit : kept ++ w :: rest = kept ++ [w] ++ rest := by simp
      rw [List.foldl_cons, hsplit]
      refine (ih _).trans (append ?_ rest)
      split
      case isTrue hany =>
        obtain ⟨v, hv, hvw⟩ := List.any_eq_true.1 hany
        refine ⟨fun u hu => ?_, fun u hu _ => List.mem_append_left _ hu⟩
        rcases List.mem_append.1 hu with hu | hu
        · exact ⟨u, hu, List.prefix_refl _⟩
        · obtain rfl := List.mem_singleton.1 hu
          exact ⟨v, hv, List.isPrefixOf_iff_prefix.1 hvw⟩
      case isFalse => exact refl _
  exact hfold ws []

theorem cut (n : Nat) (ws : List Word) : Selects (ws.map (·.cut n)) ws :=
  (Shortening.map (Word.shortens_cut n) ws).selects

theorem tidied_cut (n : Nat) (ws : List Word) : Selects (Words.tidied (ws.map (·.cut n))) ws :=
  (Shortening.tidied _).selects.trans (cut n ws)

theorem shortened (ws : List Word) (steps : List (Nat × Nat)) :
    Selects (Words.shortened ws steps) ws := by
  induction steps generalizing ws with
  | nil => exact refl ws
  | cons step rest ih =>
    unfold Words.shortened
    split
    case isTrue => exact refl ws
    case isFalse => exact (ih _).trans ((reduced _).trans (cut _ ws))

end Selects

/-- Words are chosen in place of those that there are. -/
theorem Words.selects_chosen (h : Words.chosen vs = some ws) : Selects ws vs := by
  unfold Words.chosen at h
  split at h
  case isTrue => cases h
  case isFalse =>
    extract_lets kept common fast shorter short at h
    have hkept : Selects kept vs := .reduced vs
    split at h
    case isTrue =>
      cases h
      exact (Selects.tidied_cut 1 kept).trans hkept
    case isFalse =>
      -- the front that all words have in common may take their place
      have hshorter : Selects shorter vs := by
        unfold shorter
        split
        case isTrue => exact (Selects.tidied_cut _ kept).trans hkept
        case isFalse => exact hkept
      have hshort : Selects short vs := (Selects.shortened shorter _).trans hshorter
      split at h
      case isTrue =>
        split at h
        case isTrue => exact Option.some.inj h ▸ hshorter
        case isFalse => exact Option.some.inj h ▸ hshort
      case isFalse =>
        split at h
        case isTrue => cases h
        case isFalse => exact Option.some.inj h ▸ hshort

/-! ### Lines -/

/-- **Whole words are all that a line is searched for.** If the words of a pattern that asks for
nothing around its matches are whole, then a line has a match exactly if it has one of the words in
it. -/
theorem found_iff_of_wholeWords (hbare : p.isBare = true) (hkept : p.Kept)
    (h : p.wholeWords = true) :
    ∃ ws, p.words.bind Words.chosen = some ws ∧ ∀ line, p.found line = true
      ↔ ∃ w ∈ ws, ∃ cs, encoded cs = w.bytes ∧ cs <:+: line := by
  unfold wholeWords at h
  split at h
  case h_1 => cases h
  case h_2 ws hchosen =>
    obtain ⟨vs, hwords, hchosen⟩ := Option.bind_eq_some_iff.1 hchosen
    have hselects := Words.selects_chosen hchosen
    have hdescribes : Describes vs p.language := by
      have hwords' := (describe_gather hbare hkept .ofEmpty).1 vs hwords
      rwa [one_mul] at hwords'
    have hwhole : ∀ w ∈ ws, ∃ cs, w.bytes = encoded cs ∧ p.Matches [] cs [] := by
      intro w hw
      have hw' := List.all_eq_true.1 (Bool.and_eq_true_iff.1 h).2 w hw
      exact hdescribes.whole w (hselects.whole w hw hw') hw'
    refine ⟨ws, Option.bind_eq_some_iff.2 ⟨vs, hwords, hchosen⟩, fun line => ?_⟩
    rw [found_iff]
    constructor
    · -- a match starts with a word that is chosen, which is a text since it is whole
      rintro ⟨b, cs, a, rfl, hmatch⟩
      obtain ⟨v, hv, hallows⟩ := hdescribes.allows (encoded cs)
        ⟨cs, rfl, (anywhere_of_isBare hbare).elsewhere hmatch⟩
      obtain ⟨w, hw, hwv⟩ := hselects.front v hv
      obtain ⟨ds, hds, -⟩ := hwhole w hw
      have hfront : ds <+: cs := prefix_of_encoded (hds ▸ hwv.trans hallows.1)
      exact ⟨w, hw, ds, hds.symm, hfront.isInfix.trans ⟨b, a, rfl⟩⟩
    · rintro ⟨w, hw, cs, hcs, b, a, rfl⟩
      obtain ⟨ds, hds, hmatch⟩ := hwhole w hw
      obtain rfl := encoded_inj (hcs.trans hds)
      exact ⟨b, cs, a, rfl, (anywhere_of_isBare hbare).elsewhere hmatch⟩

end ChipEight.Pattern
