import ChipEight.Log
import ChipEight.Pattern.Reader

namespace ChipEight.CommandLine

/-!
# Log filters — which records are written

A filter is a list of rules and perhaps a pattern. A rule is for the targets that start with a
module's name, or for every target, and lets levels through up to a limit. Of the rules that are for
a target, the one with the longest name decides; a rule for every target counts as the shortest. A
record that the rules let through is written if its message has a match for the pattern.

A text holds rules with commas between them: a level, a module, or both with an equals sign between
them. A part that is neither is left out, and a filter without a rule lets errors through. A pattern
may follow behind a slash; one that cannot be read is left out, and a text with another slash holds
nothing.

* `LevelLimit.ofText?` — the limit that a word names;
* `LogRule`, `LogRule.ofText?` — one rule;
* `LogRules`, `LogRules.insert`, `LogRules.ofText` — rules, at most one for a name;
* `LogRules.decisive?`, `LogRules.lets` — the rule that decides, and what it lets through;
* `LogFilter`, `LogFilter.ofText`, `LogFilter.lets` — rules and a pattern;
* `LogFilter.ofSetting` — the filter of a run.
-/

/-- The levels that are let through: those with at most this rank, zero for none. -/
abbrev LevelLimit := Nat

/-- The limit that a word names, in either case. -/
def LevelLimit.ofText? (word : List Char) : Option LevelLimit :=
  match String.ofList (word.map Char.toLower) with
  | "off" => some 0
  | "error" => some LogLevel.error.rank
  | "warn" => some LogLevel.warn.rank
  | "info" => some LogLevel.info.rank
  | "debug" => some LogLevel.debug.rank
  | "trace" => some LogLevel.trace.rank
  | _ => none

/-- What is let through for some of the targets. -/
structure LogRule where
  /-- The start of the targets that the rule is for; none if it is for every target. -/
  scope : Option String
  /-- The levels that are let through. -/
  limit : LevelLimit
deriving DecidableEq, Repr

namespace LogRule

/-- The rule that a part of a text describes. -/
def ofText? (part : List Char) : Option LogRule :=
  match List.splitOn '=' (Blank.trim part) with
  | [[]] => none
  | [word] =>
    match LevelLimit.ofText? word with
    | some limit => some ⟨none, limit⟩
    | none => some ⟨some (String.ofList word), LogLevel.trace.rank⟩
  | [name, word] =>
    if (Blank.trim word).isEmpty then
      some ⟨some (String.ofList name), LogLevel.trace.rank⟩
    else
      (LevelLimit.ofText? (Blank.trim word)).map fun limit => ⟨some (String.ofList name), limit⟩
  | _ => none

/-- Whether the rule is for a target. -/
def covers (r : LogRule) (target : String) : Bool :=
  match r.scope with
  | none => true
  | some name => name.toList.isPrefixOf target.toList

/-- The length of the name that the rule is for. -/
def reach (r : LogRule) : Nat :=
  match r.scope with
  | none => 0
  | some name => name.length

end LogRule

/-- Rules, at most one for a name. -/
abbrev LogRules := List LogRule

namespace LogRules

/-- The rules with one more, in place of one for the same name. -/
def insert (rules : LogRules) (r : LogRule) : LogRules :=
  match rules with
  | [] => [r]
  | q :: rest => if q.scope = r.scope then r :: rest else q :: insert rest r

/-- The rules that a text describes. -/
def ofText (text : List Char) : LogRules :=
  ((List.splitOn ',' text).filterMap LogRule.ofText?).foldl insert []

/-- Of two rules that are for a target the one that decides; the second, if they reach as far. -/
def prefer (before : Option LogRule) (r : LogRule) : LogRule :=
  match before with
  | none => r
  | some q => if q.reach ≤ r.reach then r else q

/-- The rule that decides about a target. -/
def decisive? (rules : LogRules) (target : String) : Option LogRule :=
  (rules.filter (LogRule.covers · target)).foldl (fun before r => some (prefer before r)) none

/-- Whether a level is let through for a target. -/
def lets (rules : LogRules) (target : String) (level : LogLevel) : Bool :=
  match rules.decisive? target with
  | some rule => decide (level.rank ≤ rule.limit)
  | none => false

end LogRules

/-- Which records are written. -/
structure LogFilter where
  /-- What is let through for the targets. -/
  rules : LogRules
  /-- What a message must have a match for, if there is such a thing. -/
  pattern : Option Pattern
deriving DecidableEq, Repr

namespace LogFilter

/-- The filter that a text describes. -/
def ofText (text : String) : LogFilter :=
  match List.splitOn '/' text.toList with
  | [rules] => ⟨.ofText rules, none⟩
  | [rules, pattern] => ⟨.ofText rules, Pattern.ofText? pattern⟩
  | _ => ⟨[], none⟩

/-- Whether a record is written. -/
def lets (f : LogFilter) (r : LogRecord) : Bool :=
  f.rules.lets r.target r.level && f.pattern.all (·.found r.message.toList)

/-- The rule that a run which logs every step puts over the others. -/
def traceRule : LogRule where
  scope := some "chip8_interp"
  limit := LogLevel.trace.rank

/-- The filter of a run: that of the text, or warnings and errors if there is no text, with the rule
for traces if every step is logged. -/
def ofSetting (text : Option String) (trace : Bool) : LogFilter :=
  let f := ofText (text.getD "warn")
  let rules := if trace then f.rules.insert traceRule else f.rules
  { f with rules := if rules.isEmpty then [⟨none, LogLevel.error.rank⟩] else rules }

end LogFilter

/-! ### Unit tests: rules in a text -/

example : LogFilter.ofText "Info" = ⟨[⟨none, LogLevel.info.rank⟩], none⟩ := rfl

example : LogFilter.ofText "emu=debug,\u3000warn" =
    ⟨[⟨some "emu", LogLevel.debug.rank⟩, ⟨none, LogLevel.warn.rank⟩], none⟩ := by decide

-- The rule for traces takes the place of a rule for the same name.
example : LogFilter.ofSetting (some "chip8_interp=info") true = ⟨[LogFilter.traceRule], none⟩ := rfl

-- Without any rule errors get through.
example : LogFilter.ofSetting (some "") false = ⟨[⟨none, LogLevel.error.rank⟩], none⟩ := rfl

/-! ### Unit tests: a pattern behind the rules -/

example : (LogFilter.ofText "debug/20 byte").lets (.loaded 20) = true
    ∧ (LogFilter.ofText "debug/20 byte").lets (.loaded 12) = false := by decide

-- A pattern that cannot be read is left out, and a second slash makes the text void.
example : LogFilter.ofText "off/(" = ⟨[⟨none, 0⟩], none⟩ := by decide

example : LogFilter.ofText "info/a/b" = ⟨[], none⟩ := rfl

end ChipEight.CommandLine
