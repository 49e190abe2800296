import ChipEight.Pattern.Reader
import ChipEight.Proofs.Pattern.Occurrence
import Mathlib.Computability.Language

namespace ChipEight.Pattern

/-!
# Languages — the matches of a pattern as texts in bytes

A pattern that asks for nothing around its matches has the same ones everywhere. They are a
language, and it is put together as the pattern is: the matches of a choice are the sum, those in a
row are the product, and a repetition takes powers. It is taken in bytes here, since words are
looked for in bytes. That loses nothing, as the bytes of texts start alike only if the texts do.

* `encoded`, `prefix_of_encoded` — texts in bytes;
* `anywhere_of_isBare` — matches anywhere;
* `language`, `timesOf` — the matches of a pattern, and of a repetition;
* `language_join`, `language_either`, `language_repeated` — the language of each kind of pattern.
-/

/-! ### Texts in bytes -/

/-- The bytes of a text. -/
def encoded (cs : List Char) : List UInt8 :=
  cs.flatMap String.utf8EncodeChar

theorem encoded_append (cs ds : List Char) : encoded (cs ++ ds) = encoded cs ++ encoded ds :=
  List.flatMap_append

/-- Where the bytes of a text start with those of another, so does the text. -/
theorem prefix_of_encoded {cs ds : List Char} (h : encoded cs <+: encoded ds) : cs <+: ds := by
  induction cs generalizing ds with
  | nil => exact List.nil_prefix
  | cons c cs ih =>
    obtain ⟨rest, hrest⟩ := h
    cases ds with
    | nil =>
      have hnil : String.utf8EncodeChar c = [] := by simp_all [encoded]
      exact absurd hnil String.utf8EncodeChar_ne_nil
    | cons d ds =>
      -- the first character is decoded from the bytes that both texts have in front
      have hbytes : (String.utf8EncodeChar c).toByteArray ++ (encoded cs ++ rest).toByteArray
          = (String.utf8EncodeChar d).toByteArray ++ (encoded ds).toByteArray := by
        rw [← List.toByteArray_append, ← List.toByteArray_append, ← List.append_assoc]
        exact congrArg List.toByteArray hrest
      have hdecoded := congrArg (·.utf8DecodeChar? 0) hbytes
      simp only [ByteArray.utf8DecodeChar?_utf8EncodeChar_append, Option.some.injEq] at hdecoded
      subst hdecoded
      rw [List.cons_prefix_cons]
      refine ⟨rfl, ih ⟨rest, ?_⟩⟩
      simpa [encoded] using hrest

theorem encoded_inj {cs ds : List Char} (h : encoded cs = encoded ds) : cs = ds := by
  have hfront : cs <+: ds := prefix_of_encoded (h ▸ List.prefix_refl _)
  have hback : ds <+: cs := prefix_of_encoded (h ▸ List.prefix_refl _)
  exact hfront.eq_of_length (Nat.le_antisymm hfront.length_le hback.length_le)

/-! ### Matches anywhere -/

/-- What occurs at one place occurs at any other. -/
def Anywhere (R : Occurrence) : Prop :=
  ∀ b cs a b' a', R b cs a → R b' cs a'

theorem Anywhere.elsewhere {R : Occurrence} (hR : Anywhere R) {b cs a b' a' : List Char}
    (h : R b cs a) : R b' cs a' :=
  hR b cs a b' a' h

theorem Anywhere.power {R : Occurrence} (hR : Anywhere R) (n : Nat) : Anywhere (R.power n) := by
  induction n with
  | zero => exact fun _ _ _ _ _ h => h
  | succ n ih =>
    rintro b _ a b' a' ⟨ds, es, rfl, hds, hes⟩
    exact ⟨ds, es, rfl, hR.elsewhere hds, ih.elsewhere hes⟩

variable {p q : Pattern}

/-- A pattern that asks for nothing around its matches has the same ones everywhere. -/
theorem anywhere_of_isBare (hbare : p.isBare = true) : Anywhere p.Matches := by
  induction p with
  | empty => exact fun _ _ _ _ _ h => h
  | text t => exact fun _ _ _ _ _ h => h
  | set s wide => exact fun _ _ _ _ _ h => h
  | edge e => cases hbare
  | group number p => cases hbare
  | repeated p least most sparing ih =>
    rintro b cs a b' a' ⟨n, hleast, hmost, h⟩
    exact ⟨n, hleast, hmost, ((ih hbare).power n).elsewhere h⟩
  | join p q ihp ihq =>
    obtain ⟨hp, hq⟩ := Bool.and_eq_true_iff.1 hbare
    rintro b _ a b' a' ⟨ds, es, rfl, hds, hes⟩
    exact ⟨ds, es, rfl, (ihp hp).elsewhere hds, (ihq hq).elsewhere hes⟩
  | either p q ihp ihq =>
    obtain ⟨hp, hq⟩ := Bool.and_eq_true_iff.1 hbare
    rintro b cs a b' a' (h | h)
    · exact .inl ((ihp hp).elsewhere h)
    · exact .inr ((ihq hq).elsewhere h)

/-- The matches of a pattern in bytes. -/
def language (p : Pattern) : Language UInt8 :=
  {bs | ∃ cs, bs = encoded cs ∧ p.Matches [] cs []}

theorem mem_language {bs : List UInt8} :
    bs ∈ p.language ↔ ∃ cs, bs = encoded cs ∧ p.Matches [] cs [] :=
  Iff.rfl

theorem language_empty : language empty = 1 := by
  ext bs
  rw [mem_language, Language.mem_one]
  exact ⟨fun ⟨cs, hbs, hcs⟩ => by rw [hbs, show cs = [] from hcs]; rfl, fun h => ⟨[], h, rfl⟩⟩

theorem language_either : language (either p q) = p.language + q.language := by
  ext bs
  rw [Language.mem_add]
  simp only [mem_language]
  constructor
  · rintro ⟨cs, hbs, h | h⟩
    · exact .inl ⟨cs, hbs, h⟩
    · exact .inr ⟨cs, hbs, h⟩
  · rintro (⟨cs, hbs, h⟩ | ⟨cs, hbs, h⟩)
    · exact ⟨cs, hbs, .inl h⟩
    · exact ⟨cs, hbs, .inr h⟩

theorem language_join (hp : p.isBare = true) (hq : q.isBare = true) :
    language (join p q) = p.language * q.language := by
  ext bs
  rw [Language.mem_mul]
  simp only [mem_language]
  constructor
  · rintro ⟨_, rfl, ds, es, rfl, hds, hes⟩
    exact ⟨encoded ds, ⟨ds, rfl, (anywhere_of_isBare hp).elsewhere hds⟩, encoded es,
      ⟨es, rfl, (anywhere_of_isBare hq).elsewhere hes⟩, (encoded_append ds es).symm⟩
  · rintro ⟨_, ⟨ds, rfl, hds⟩, _, ⟨es, rfl, hes⟩, rfl⟩
    exact ⟨ds ++ es, (encoded_append ds es).symm, ds, es, rfl,
      (anywhere_of_isBare hp).elsewhere hds, (anywhere_of_isBare hq).elsewhere hes⟩

/-- So many matches in a row are a power of the language. -/
theorem mem_language_pow (hp : p.isBare = true) {n : Nat} {bs : List UInt8} :
    bs ∈ p.language ^ n ↔ ∃ cs, bs = encoded cs ∧ p.Matches.power n [] cs [] := by
  induction n generalizing bs with
  | zero =>
    rw [pow_zero, ← language_empty]
    exact mem_language
  | succ n ih =>
    rw [pow_succ', Language.mem_mul]
    constructor
    · rintro ⟨_, ⟨ds, rfl, hds⟩, _, hrest, rfl⟩
      obtain ⟨es, rfl, hes⟩ := ih.1 hrest
      exact ⟨ds ++ es, (encoded_append ds es).symm, ds, es, rfl,
        (anywhere_of_isBare hp).elsewhere hds, ((anywhere_of_isBare hp).power n).elsewhere hes⟩
    · rintro ⟨_, rfl, ds, es, rfl, hds, hes⟩
      exact ⟨encoded ds, ⟨ds, rfl, (anywhere_of_isBare hp).elsewhere hds⟩, encoded es,
        ih.2 ⟨es, rfl, ((anywhere_of_isBare hp).power n).elsewhere hes⟩,
        (encoded_append ds es).symm⟩

/-- The texts that are some of a language in a row, within bounds. -/
def timesOf (L : Language UInt8) (least : Nat) (most : Option Nat) : Language UInt8 :=
  {bs | ∃ n, least ≤ n ∧ (∀ m ∈ most, n ≤ max least m) ∧ bs ∈ L ^ n}

theorem language_repeated (hp : p.isBare = true) (least : Nat) (most : Option Nat)
    (sparing : Bool) :
    (repeated p least most sparing).language = timesOf p.language least most := by
  ext bs
  constructor
  · rintro ⟨cs, hbs, n, hleast, hmost, h⟩
    exact ⟨n, hleast, hmost, (mem_language_pow hp).2 ⟨cs, hbs, h⟩⟩
  · rintro ⟨n, hleast, hmost, h⟩
    obtain ⟨cs, hbs, h⟩ := (mem_language_pow hp).1 h
    exact ⟨cs, hbs, n, hleast, hmost, h⟩

variable {L M : Language UInt8}

theorem nil_mem_timesOf (most : Option Nat) : [] ∈ timesOf L 0 most :=
  ⟨0, Nat.le_refl 0, fun _ _ => Nat.zero_le _, by rw [pow_zero]; rfl⟩

theorem timesOf_one : timesOf L 0 (some 1) = 1 + L := by
  ext bs
  rw [Language.mem_add]
  constructor
  · rintro ⟨n, -, hmost, hbs⟩
    have hn := hmost 1 rfl
    obtain rfl | rfl : n = 0 ∨ n = 1 := by omega
    · exact .inl (pow_zero L ▸ hbs)
    · exact .inr (pow_one L ▸ hbs)
  · rintro (hbs | hbs)
    · exact (Language.mem_one bs).1 hbs ▸ nil_mem_timesOf _
    · exact ⟨1, by omega, fun m hm => by cases hm; omega, (pow_one L).symm ▸ hbs⟩

theorem timesOf_self (n : Nat) : timesOf L n (some n) = L ^ n := by
  ext bs
  constructor
  · rintro ⟨m, hleast, hmost, hbs⟩
    have hm := hmost n rfl
    obtain rfl : m = n := by omega
    exact hbs
  · exact fun hbs => ⟨n, Nat.le_refl n, fun m hm => by cases hm; omega, hbs⟩

theorem exists_prefix_of_mem_mul {bs : List UInt8} (h : bs ∈ L * M) : ∃ ds ∈ L, ds <+: bs := by
  obtain ⟨ds, hds, es, -, rfl⟩ := Language.mem_mul.1 h
  exact ⟨ds, hds, es, rfl⟩

/-- Many in a row start with fewer. -/
theorem exists_prefix_of_mem_pow {m n : Nat} (hmn : m ≤ n) {bs : List UInt8} (h : bs ∈ L ^ n) :
    ∃ ds ∈ L ^ m, ds <+: bs := by
  rw [← Nat.add_sub_cancel' hmn, pow_add] at h
  exact exists_prefix_of_mem_mul h

end ChipEight.Pattern
