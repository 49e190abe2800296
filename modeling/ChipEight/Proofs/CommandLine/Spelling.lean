import ChipEight.CommandLine.Options

namespace ChipEight.CommandLine

/-!
# Spelling — how single arguments are written

An option has one long name, some have a letter, and a value is attached in one of three ways. What
is written in none of these ways is a value or a path if it does not start with a dash, and no
argument at all otherwise.

* `splitAssignment_eq_iff` — a text with an equals sign in it;
* `Setting.names` — an option with a value, on its own;
* `Argument.Spelling` — how arguments are written;
* `Argument.ofText_eq_iff` — a text is taken for the argument that it spells.
-/

/-! ### Equals signs -/

/-- What stands behind a name: nothing, or an equals sign and a value. -/
def assignment : Option (List Char) → List Char
  | none => []
  | some value => '=' :: value

/-- A text is split at the first equals sign. -/
theorem splitAssignment_eq_iff {text name : List Char} {value : Option (List Char)} :
    splitAssignment text = (name, value) ↔ '=' ∉ name ∧ text = name ++ assignment value := by
  fun_induction splitAssignment text generalizing name with
  | case1 =>
    constructor
    · rintro ⟨⟩
      exact ⟨List.not_mem_nil, rfl⟩
    · rintro ⟨-, h⟩
      obtain ⟨rfl, hvalue⟩ := List.nil_eq_append_iff.1 h
      cases value with
      | none => rfl
      | some v => cases hvalue
  | case2 rest =>
    constructor
    · rintro ⟨⟩
      exact ⟨List.not_mem_nil, rfl⟩
    · rintro ⟨hname, h⟩
      cases name with
      | cons c name =>
        obtain ⟨rfl, -⟩ := List.cons.inj h
        exact absurd List.mem_cons_self hname
      | nil =>
        cases value with
        | none => cases h
        | some v => rw [(List.cons.inj h).2]
  | case3 c rest hc name' value' hsplit ih =>
    -- the first sign is that of the rest, if there is one
    have hne : c ≠ '=' := hc
    constructor
    · rintro ⟨⟩
      obtain ⟨hname, hrest⟩ := ih.1 hsplit
      refine ⟨?_, by rw [hrest]; rfl⟩
      exact List.not_mem_cons_of_ne_of_not_mem hne.symm hname
    · rintro ⟨hname, h⟩
      cases name with
      | nil =>
        cases value with
        | none => cases h
        | some v => exact absurd (List.cons.inj h).1 hne
      | cons d name =>
        obtain ⟨rfl, hrest⟩ := List.cons.inj h
        have hsplit' := ih.2 ⟨List.not_mem_of_not_mem_cons hname, hrest⟩
        rw [hsplit] at hsplit'
        cases hsplit'
        rfl

/-! ### Names -/

/-- The arguments that are an option and leave its value to the next argument. -/
def Setting.names (s : Setting) : List String :=
  ("--" ++ s.name) :: s.letter?.toList.map fun c => "-" ++ String.ofList [c]

theorem Setting.ofName?_eq_some_iff {name : String} {s : Setting} :
    Setting.ofName? name = some s ↔ name = s.name := by
  constructor
  · intro h
    unfold Setting.ofName? at h
    split at h
    case h_6 => cases h
    all_goals
      cases h
      rfl
  · rintro rfl
    cases s <;> rfl

theorem Setting.ofLetter?_eq_some_iff {c : Char} {s : Setting} :
    Setting.ofLetter? c = some s ↔ s.letter? = some c := by
  constructor
  · intro h
    unfold Setting.ofLetter? at h
    split at h
    case h_3 => cases h
    all_goals
      cases h
      rfl
  · intro h
    cases s <;> cases h <;> rfl

/-- The long names lead to all options without a value but to short help. -/
theorem Switch.ofName?_eq_some_iff {name : String} {s : Switch} :
    Switch.ofName? name = some s ↔ s ≠ .help .short ∧ name = s.name := by
  constructor
  · intro h
    unfold Switch.ofName? at h
    split at h
    case h_4 => cases h
    all_goals
      cases h
      exact ⟨by simp, rfl⟩
  · rintro ⟨hs, rfl⟩
    cases s
    case help form =>
      cases form with
      | short => exact absurd rfl hs
      | long => rfl
    all_goals rfl

theorem Switch.ofLetter?_eq_some_iff {c : Char} {s : Switch} :
    Switch.ofLetter? c = some s ↔ c = 'h' ∧ s = .help .short := by
  constructor
  · intro h
    unfold Switch.ofLetter? at h
    split at h
    case h_1 =>
      cases h
      exact ⟨rfl, rfl⟩
    case h_2 => cases h
  · rintro ⟨rfl, rfl⟩
    rfl

/-- No name belongs to options of both kinds. -/
theorem Setting.ofName?_switchName (s : Switch) : Setting.ofName? s.name = none := by
  cases s <;> rfl

theorem Setting.not_mem_name (s : Setting) : '=' ∉ s.name.toList := by
  cases s <;> decide

theorem Switch.not_mem_name (s : Switch) : '=' ∉ s.name.toList := by
  cases s
  case help form => exact show '=' ∉ "help".toList by decide
  all_goals decide

namespace Argument

/-! ### Arguments -/

/-- How arguments are written. -/
inductive Spelling : Argument → String → Prop
  /-- Two dashes. -/
  | terminator : Spelling .terminator "--"
  /-- An option on its own, under its long name or its letter. -/
  | setting {s : Setting} {name : String} (h : name ∈ s.names) : Spelling (.setting s none) name
  /-- An option with an equals sign and its value. -/
  | assigned {s : Setting} {name : String} (h : name ∈ s.names) (value : String) :
    Spelling (.setting s (some value)) (name ++ "=" ++ value)
  /-- A letter and the value, right behind it. -/
  | joined {s : Setting} {c : Char} (h : s.letter? = some c) {value : String} (hne : value ≠ "")
      (hsign : value.toList.head? ≠ some '=') :
    Spelling (.setting s (some value)) ("-" ++ String.ofList [c] ++ value)
  /-- An option without a value. -/
  | switch {s : Switch} (h : s ≠ .help .short) : Spelling (.switch s none) ("--" ++ s.name)
  /-- An option without a value that is given one. -/
  | switchAssigned {s : Switch} (h : s ≠ .help .short) (value : String) :
    Spelling (.switch s (some value)) ("--" ++ s.name ++ "=" ++ value)
  /-- The letter for short help, whatever stands behind it. -/
  | shortHelp (rest : String) : Spelling (.switch (.help .short) none) ("-h" ++ rest)
  /-- A text that does not start with a dash, or a lone dash. -/
  | plain {text : String} (h : text.toList.head? ≠ some '-' ∨ text = "-") :
    Spelling (.plain text) text

/-- What is attached to a name in some way. -/
def attachment : Option String → String
  | none => ""
  | some value => "=" ++ value

/-! ### Long names -/

theorem assignment_map_toList (attached : Option String) :
    assignment (attached.map String.toList) = (attachment attached).toList := by
  cases attached with
  | none => rfl
  | some v => simp [assignment, attachment]

theorem ofLong_setting (s : Setting) (attached : Option String) :
    ofLong (s.name ++ attachment attached).toList = .setting s attached := by
  have hsplit : splitAssignment (s.name ++ attachment attached).toList
      = (s.name.toList, attached.map String.toList) :=
    splitAssignment_eq_iff.2
      ⟨s.not_mem_name, by rw [String.toList_append, assignment_map_toList]⟩
  simp only [ofLong, hsplit, String.ofList_toList, Setting.ofName?_eq_some_iff.2 rfl]
  cases attached <;> simp

theorem ofLong_switch {s : Switch} (hs : s ≠ .help .short) (attached : Option String) :
    ofLong (s.name ++ attachment attached).toList = .switch s attached := by
  have hsplit : splitAssignment (s.name ++ attachment attached).toList
      = (s.name.toList, attached.map String.toList) :=
    splitAssignment_eq_iff.2
      ⟨s.not_mem_name, by rw [String.toList_append, assignment_map_toList]⟩
  simp only [ofLong, hsplit, String.ofList_toList, Setting.ofName?_switchName,
    Switch.ofName?_eq_some_iff.2 ⟨hs, rfl⟩]
  cases attached <;> simp

/-- What follows two dashes is a name with something attached, or no option at all. -/
theorem ofLong_cases (body : List Char) :
    (∃ s attached, body = (Setting.name s ++ attachment attached).toList
      ∧ ofLong body = .setting s attached)
    ∨ (∃ s attached, s ≠ .help .short ∧ body = (Switch.name s ++ attachment attached).toList
      ∧ ofLong body = .switch s attached)
    ∨ ∃ name, ofLong body = .unknown name := by
  cases hsplit : splitAssignment body with
  | mk name value =>
    obtain ⟨-, hbody⟩ := splitAssignment_eq_iff.1 hsplit
    have hvalue : (value.map String.ofList).map String.toList = value := by
      cases value <;> simp
    have htext : body = (String.ofList name ++ attachment (value.map String.ofList)).toList := by
      rw [hbody, String.toList_append, String.toList_ofList, ← assignment_map_toList, hvalue]
    cases hs : Setting.ofName? (String.ofList name) with
    | some s =>
      rw [Setting.ofName?_eq_some_iff.1 hs] at htext
      exact .inl ⟨s, _, htext, by rw [htext, ofLong_setting]⟩
    | none =>
      cases hw : Switch.ofName? (String.ofList name) with
      | some s =>
        obtain ⟨hne, hname⟩ := Switch.ofName?_eq_some_iff.1 hw
        rw [hname] at htext
        exact .inr (.inl ⟨s, _, hne, htext, by rw [htext, ofLong_switch hne]⟩)
      | none =>
        have hunknown : ofLong body = .unknown (String.ofList ('-' :: '-' :: name)) := by
          simp only [ofLong, hsplit, hs, hw]
        exact .inr (.inr ⟨_, hunknown⟩)

/-! ### Letters -/

theorem ofLetter_setting {s : Setting} {c : Char} (h : s.letter? = some c) (rest : List Char) :
    ofLetter c rest = .setting s (attachedToLetter rest) := by
  simp only [ofLetter, Setting.ofLetter?_eq_some_iff.2 h]

/-- What follows one dash is the letter of an option, or no option at all. -/
theorem ofLetter_cases (c : Char) (rest : List Char) :
    (∃ s, Setting.letter? s = some c ∧ ofLetter c rest = .setting s (attachedToLetter rest))
    ∨ (c = 'h' ∧ ofLetter c rest = .switch (.help .short) none)
    ∨ ∃ name, ofLetter c rest = .unknown name := by
  cases hs : Setting.ofLetter? c with
  | some s =>
    have hc := Setting.ofLetter?_eq_some_iff.1 hs
    exact .inl ⟨s, hc, ofLetter_setting hc rest⟩
  | none =>
    cases hw : Switch.ofLetter? c with
    | some s =>
      obtain ⟨rfl, rfl⟩ := Switch.ofLetter?_eq_some_iff.1 hw
      exact .inr (.inl ⟨rfl, rfl⟩)
    | none =>
      have hunknown : ofLetter c rest = .unknown (String.ofList ['-', c]) := by
        simp only [ofLetter, hs, hw]
      exact .inr (.inr ⟨_, hunknown⟩)

theorem attachedToLetter_of_ne_nil {rest : List Char} (hne : rest ≠ [])
    (hsign : rest.head? ≠ some '=') : attachedToLetter rest = some (String.ofList rest) := by
  unfold attachedToLetter
  split
  case h_1 => exact absurd rfl hne
  case h_2 => exact absurd rfl hsign
  case h_3 => rfl

/-! ### Texts -/

variable {text : String} {body rest : List Char} {c : Char}

theorem ofText_long (h : text.toList = '-' :: '-' :: body) (hne : body ≠ []) :
    ofText text = ofLong body := by
  unfold ofText
  rw [h]
  cases body with
  | nil => exact absurd rfl hne
  | cons c rest => rfl

theorem ofText_letter (h : text.toList = '-' :: c :: rest) (hc : c ≠ '-') :
    ofText text = ofLetter c rest := by
  unfold ofText
  rw [h]
  split
  case h_1 heq => exact absurd (List.cons.inj (List.cons.inj heq).2).1 hc
  case h_2 heq => exact absurd (List.cons.inj (List.cons.inj heq).2).1 hc
  case h_3 heq =>
    cases heq
    rfl
  case h_4 hnot => exact absurd rfl (hnot c rest)

theorem ofText_plain (h : text.toList.head? ≠ some '-' ∨ text = "-") :
    ofText text = .plain text := by
  rcases h with h | rfl
  · unfold ofText
    split
    case h_4 => rfl
    all_goals
      rename_i heq
      exact absurd (by rw [heq]; rfl) h
  · rfl

/-- A text is a value or path, starts with two dashes or with one, or is two dashes. -/
theorem text_cases (text : String) :
    (text.toList.head? ≠ some '-' ∨ text = "-") ∨ text = "--"
    ∨ (∃ body, body ≠ [] ∧ text.toList = '-' :: '-' :: body)
    ∨ ∃ c rest, c ≠ '-' ∧ text.toList = '-' :: c :: rest := by
  cases htext : text.toList with
  | nil => exact .inl (.inl (by simp))
  | cons b rest =>
    by_cases hb : b = '-'
    · subst hb
      cases rest with
      | nil => exact .inl (.inr (String.toList_injective htext))
      | cons c rest =>
        by_cases hc : c = '-'
        · subst hc
          cases rest with
          | nil => exact .inr (.inl (String.toList_injective htext))
          | cons d rest => exact .inr (.inr (.inl ⟨d :: rest, by simp, rfl⟩))
        · exact .inr (.inr (.inr ⟨c, rest, hc, rfl⟩))
    · exact .inl (.inl (by simpa using hb))

theorem mem_names_iff {s : Setting} {name : String} :
    name ∈ s.names
      ↔ name = "--" ++ s.name ∨ ∃ c, s.letter? = some c ∧ name = "-" ++ String.ofList [c] := by
  simp [Setting.names, eq_comm]

theorem letter_ne_dash {s : Setting} (h : s.letter? = some c) : c ≠ '-' := by
  rintro rfl
  cases s <;> cases h

/-- A text that follows the spelling of an argument is that argument. -/
theorem Spelling.sound {a : Argument} (h : a.Spelling text) : ofText text = a := by
  have hsetting : ∀ s attached,
      ofText ("--" ++ (Setting.name s ++ attachment attached)) = .setting s attached := by
    intro s attached
    rw [ofText_long (String.toList_append ..) (by cases s <;> simp [Setting.name])]
    exact ofLong_setting s attached
  have hswitch : ∀ s attached, s ≠ .help .short →
      ofText ("--" ++ (Switch.name s ++ attachment attached)) = .switch s attached := by
    intro s attached hs
    rw [ofText_long (String.toList_append ..) (by cases s <;> simp [Switch.name])]
    exact ofLong_switch hs attached
  cases h with
  | terminator => rfl
  | @setting s name h =>
    rcases mem_names_iff.1 h with rfl | ⟨c, hc, rfl⟩
    · simpa [attachment] using hsetting s none
    · rw [ofText_letter (by simp : _ = '-' :: c :: []) (letter_ne_dash hc), ofLetter_setting hc]
      rfl
  | @assigned s name h value =>
    rcases mem_names_iff.1 h with rfl | ⟨c, hc, rfl⟩
    · simpa [attachment, String.append_assoc] using hsetting s (some value)
    · rw [ofText_letter (by simp : _ = '-' :: c :: '=' :: value.toList) (letter_ne_dash hc),
        ofLetter_setting hc]
      simp [attachedToLetter]
  | @joined s c hc value hne hsign =>
    have hvalue : value.toList ≠ [] := by simpa using hne
    rw [ofText_letter (by simp : _ = '-' :: c :: value.toList) (letter_ne_dash hc),
      ofLetter_setting hc, attachedToLetter_of_ne_nil hvalue hsign, String.ofList_toList]
  | switch h => simpa [attachment] using hswitch _ none h
  | switchAssigned h value =>
    simpa [attachment, String.append_assoc] using hswitch _ (some value) h
  | shortHelp rest =>
    rw [ofText_letter (by simp : _ = '-' :: 'h' :: rest.toList) (by decide)]
    rfl
  | plain h => exact ofText_plain h

/-- A text is what it spells, or looks like an option and is none. -/
theorem spelling_ofText (text : String) :
    (ofText text).Spelling text ∨ ∃ name, ofText text = .unknown name := by
  have hlong : ∀ {body : List Char} {form : String}, text.toList = '-' :: '-' :: body →
      body = form.toList → text = "--" ++ form := by
    rintro _ form ht rfl
    exact String.toList_injective (by rw [ht, String.toList_append]; rfl)
  rcases text_cases text with hplain | rfl | ⟨body, hne, ht⟩ | ⟨c, rest, hc, ht⟩
  · rw [ofText_plain hplain]
    exact .inl (.plain hplain)
  · exact .inl .terminator
  · -- a long name, with what is attached to it
    rw [ofText_long ht hne]
    rcases ofLong_cases body with
      ⟨s, attached, hbody, hs⟩ | ⟨s, attached, hshort, hbody, hs⟩ | hunknown
    · rw [hs, hlong ht hbody]
      cases attached with
      | none => simpa [attachment] using Spelling.setting (mem_names_iff.2 (.inl rfl))
      | some value =>
        simpa [attachment, String.append_assoc]
          using Spelling.assigned (mem_names_iff.2 (.inl rfl)) value
    · rw [hs, hlong ht hbody]
      cases attached with
      | none => simpa [attachment] using Spelling.switch hshort
      | some value =>
        simpa [attachment, String.append_assoc] using Spelling.switchAssigned hshort value
    · exact .inr hunknown
  · -- a letter: a value stands right behind it or behind an equals sign
    rw [ofText_letter ht hc]
    have htext : text = "-" ++ String.ofList [c] ++ String.ofList rest :=
      String.toList_injective (by simp [ht])
    rcases ofLetter_cases c rest with ⟨s, hletter, hs⟩ | ⟨rfl, hs⟩ | hunknown
    · rw [hs, htext]
      have hname : "-" ++ String.ofList [c] ∈ s.names := mem_names_iff.2 (.inr ⟨c, hletter, rfl⟩)
      cases rest with
      | nil => simpa [attachedToLetter] using Spelling.setting hname
      | cons d rest =>
        by_cases hd : d = '='
        · subst hd
          simpa [attachedToLetter, String.append_assoc]
            using Spelling.assigned hname (String.ofList rest)
        · rw [attachedToLetter_of_ne_nil (by simp) (by simpa using hd)]
          exact .inl (.joined hletter (by simp) (by simpa using hd))
    · rw [hs, htext]
      exact .inl (.shortHelp _)
    · exact .inr hunknown

/-- A text is taken for the argument that it spells. -/
theorem ofText_eq_iff {a : Argument} (ha : ∀ name, a ≠ .unknown name) :
    ofText text = a ↔ a.Spelling text := by
  constructor
  · rintro rfl
    exact (spelling_ofText text).resolve_right fun ⟨name, hname⟩ => ha name hname
  · exact Spelling.sound

end Argument

end ChipEight.CommandLine
