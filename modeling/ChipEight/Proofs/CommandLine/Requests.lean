import ChipEight.Proofs.CommandLine.KeySlots
import ChipEight.Proofs.CommandLine.Reading
import Mathlib.Data.List.Forall2
import Mathlib.Data.Nat.Digits.Lemmas

namespace ChipEight.CommandLine

/-!
# Requests — what a list of arguments asks for

A request is a number of items in some order: a path, numbers, keys, snapshots and switches. Each of
them is written as one argument or two, in one of several ways. Keys and snapshots may come as often
as one likes and are kept in their order; everything else comes once at most, and the path once.

* `Item`, `Item.IsValue`, `Item.Written` — one item, and how it is written;
* `Written` — the items of a list of arguments;
* `Draft.Takes`, `Draft.TellsAfter` — what one item and several items add to a draft;
* `Reader.draftAfter_eq_ok_iff` — the draft that arguments leave;
* `Options.AskedBy`, `Options.read_eq_ok_iff` — a list of arguments makes the request that its items
  ask for, and no other list makes any;
* `Options.exists_written` — every request can be made.
-/

/-! ### Items -/

/-- One thing that is asked for. -/
inductive Item where
  /-- The file that holds the program. -/
  | path (text : String)
  /-- The number of ticks. -/
  | ticks (n : Nat)
  /-- The number of steps of a tick. -/
  | stepsPerTick (n : Nat)
  /-- The seed. -/
  | seed (n : Nat)
  /-- A key that is held down. -/
  | hold (k : Nibble)
  /-- A snapshot. -/
  | dump (kind : Dump)
  /-- Traces. -/
  | trace
  /-- No picture. -/
  | noFrame
deriving DecidableEq, Repr

/-- A text is a decimal numeral of 64 bits, perhaps with a plus sign. -/
def IsNumber (text : String) (n : Nat) : Prop :=
  text ≠ "" ∧ Spells 10 (unsigned text.toList) n ∧ n ≤ Draft.maxNumber

namespace Item

/-- What is written as the value of an option. -/
inductive IsValue : Item → Setting → String → Prop
  | ticks {n : Nat} {value : String} (h : IsNumber value n) : IsValue (.ticks n) .ticks value
  | stepsPerTick {n : Nat} {value : String} (h : IsNumber value n) :
    IsValue (.stepsPerTick n) .stepsPerTick value
  | seed {n : Nat} {value : String} (h : IsNumber value n) : IsValue (.seed n) .seed value
  | hold {k : Nibble} {value : String} (h : KeySlot.Reading value.toList (.ok k)) :
    IsValue (.hold k) .hold value
  | dump (kind : Dump) : IsValue (.dump kind) .dump kind.name

/-- The arguments that an item is written as. -/
inductive Written : Item → List String → Prop
  /-- A path does not look like an option. -/
  | path {text : String} (hne : text ≠ "") (h : (Argument.plain text).Spelling text) :
    Written (.path text) [text]
  /-- An option, and its value in the next argument. -/
  | apart {i : Item} {s : Setting} {name value : String} (hname : name ∈ s.names)
      (h : (Argument.plain value).Spelling value) (hvalue : i.IsValue s value) :
    Written i [name, value]
  /-- An option with its value attached. -/
  | attached {i : Item} {s : Setting} {text value : String}
      (h : (Argument.setting s (some value)).Spelling text) (hvalue : i.IsValue s value) :
    Written i [text]
  | trace : Written .trace ["--trace"]
  | noFrame : Written .noFrame ["--no-frame"]

/-- The path that an item is. -/
def path? : Item → Option String
  | .path text => some text
  | _ => none

/-- The number of ticks that an item is. -/
def ticks? : Item → Option Nat
  | .ticks n => some n
  | _ => none

/-- The number of steps of a tick that an item is. -/
def stepsPerTick? : Item → Option Nat
  | .stepsPerTick n => some n
  | _ => none

/-- The seed that an item is. -/
def seed? : Item → Option Nat
  | .seed n => some n
  | _ => none

/-- The key that an item is. -/
def hold? : Item → Option Nibble
  | .hold k => some k
  | _ => none

/-- The snapshot that an item is. -/
def dump? : Item → Option Dump
  | .dump kind => some kind
  | _ => none

end Item

/-- The arguments that items are written as, one after the other. Behind the end of the options
there may be a path, which may look like an option then. -/
inductive Written : List Item → List String → Prop
  | nil : Written [] []
  | cons {i : Item} {items : List Item} {texts arguments : List String} (h : i.Written texts)
      (rest : Written items arguments) : Written (i :: items) (texts ++ arguments)
  | ended : Written [] ["--"]
  | endedPath {text : String} (hne : text ≠ "") : Written [.path text] ["--", text]

/-! ### Items and drafts -/

namespace Draft

/-- What an item adds to a draft, unless it comes a second time and may not. -/
inductive Takes : Draft → Item → Draft → Prop
  | path {d : Draft} (text : String) (h : d.path = none) :
    Takes d (.path text) { d with path := some text }
  | ticks {d : Draft} (n : Nat) (h : d.ticks = none) : Takes d (.ticks n) { d with ticks := some n }
  | stepsPerTick {d : Draft} (n : Nat) (h : d.stepsPerTick = none) :
    Takes d (.stepsPerTick n) { d with stepsPerTick := some n }
  | seed {d : Draft} (n : Nat) (h : d.seed = none) : Takes d (.seed n) { d with seed := some n }
  | hold {d : Draft} (k : Nibble) : Takes d (.hold k) { d with hold := d.hold ++ [k] }
  | dump {d : Draft} (kind : Dump) : Takes d (.dump kind) { d with dump := d.dump ++ [kind] }
  | trace {d : Draft} (h : d.trace = false) : Takes d .trace { d with trace := true }
  | noFrame {d : Draft} (h : d.noFrame = false) : Takes d .noFrame { d with noFrame := true }

/-- A draft tells what another does, and then what some items add. -/
structure TellsAfter (d : Draft) (items : List Item) (d' : Draft) : Prop where
  path_eq : d'.path.toList = d.path.toList ++ items.filterMap Item.path?
  ticks_eq : d'.ticks.toList = d.ticks.toList ++ items.filterMap Item.ticks?
  stepsPerTick_eq :
    d'.stepsPerTick.toList = d.stepsPerTick.toList ++ items.filterMap Item.stepsPerTick?
  seed_eq : d'.seed.toList = d.seed.toList ++ items.filterMap Item.seed?
  hold_eq : d'.hold = d.hold ++ items.filterMap Item.hold?
  dump_eq : d'.dump = d.dump ++ items.filterMap Item.dump?
  trace_eq : d'.trace.toNat = d.trace.toNat + items.count .trace
  noFrame_eq : d'.noFrame.toNat = d.noFrame.toNat + items.count .noFrame

variable {d d₁ d' : Draft} {i : Item} {items : List Item}

theorem eq_of_toList_eq {α : Type} {x y : Option α} (h : x.toList = y.toList) : x = y := by
  cases x <;> cases y <;> simp_all

theorem eq_of_toNat_eq {b c : Bool} (h : b.toNat = c.toNat) : b = c := by
  cases b <;> cases c <;> simp_all

/-- What is given once at most and is given later was not given before. -/
theorem eq_none_of_toList {α : Type} {x y : Option α} {a : α} {later : List α}
    (h : y.toList = x.toList ++ a :: later) : x = none := by
  cases x with
  | none => rfl
  | some b => cases y <;> simp at h

theorem eq_false_of_toNat {b c : Bool} {n : Nat} (h : c.toNat = b.toNat + (n + 1)) : b = false := by
  have hle := c.toNat_le
  cases b with
  | false => rfl
  | true =>
    rw [Bool.toNat_true] at h
    omega

theorem tellsAfter_nil_iff : d.TellsAfter [] d' ↔ d' = d := by
  constructor
  · rintro ⟨hpath, hticks, hsteps, hseed, hhold, hdump, htrace, hframe⟩
    obtain ⟨⟩ := d
    obtain ⟨⟩ := d'
    simp only [List.filterMap_nil, List.append_nil, List.count_nil, Nat.add_zero]
      at hpath hticks hsteps hseed hhold hdump htrace hframe
    rw [eq_of_toList_eq hpath, eq_of_toList_eq hticks, eq_of_toList_eq hsteps,
      eq_of_toList_eq hseed, hhold, hdump, eq_of_toNat_eq htrace, eq_of_toNat_eq hframe]
  · rintro rfl
    constructor <;> simp

/-- One item tells what it adds. -/
theorem Takes.tellsAfter (h : d.Takes i d') : d.TellsAfter [i] d' := by
  cases h <;> constructor <;>
    simp_all [Item.path?, Item.ticks?, Item.stepsPerTick?, Item.seed?, Item.hold?, Item.dump?]

theorem TellsAfter.trans {later : List Item} (h : d.TellsAfter items d₁)
    (h' : d₁.TellsAfter later d') : d.TellsAfter (items ++ later) d' where
  path_eq := by rw [h'.path_eq, h.path_eq, List.filterMap_append, List.append_assoc]
  ticks_eq := by rw [h'.ticks_eq, h.ticks_eq, List.filterMap_append, List.append_assoc]
  stepsPerTick_eq := by
    rw [h'.stepsPerTick_eq, h.stepsPerTick_eq, List.filterMap_append, List.append_assoc]
  seed_eq := by rw [h'.seed_eq, h.seed_eq, List.filterMap_append, List.append_assoc]
  hold_eq := by rw [h'.hold_eq, h.hold_eq, List.filterMap_append, List.append_assoc]
  dump_eq := by rw [h'.dump_eq, h.dump_eq, List.filterMap_append, List.append_assoc]
  trace_eq := by rw [h'.trace_eq, h.trace_eq, List.count_append, Nat.add_assoc]
  noFrame_eq := by rw [h'.noFrame_eq, h.noFrame_eq, List.count_append, Nat.add_assoc]

/-- What is told by several items is told by the first of them, which may still come, and then by
the others. -/
theorem TellsAfter.exists_takes (h : d.TellsAfter (i :: items) d') :
    ∃ d₁, d.Takes i d₁ ∧ d₁.TellsAfter items d' := by
  obtain ⟨hpath, hticks, hsteps, hseed, hhold, hdump, htrace, hframe⟩ := h
  -- what is given once at most has not come before, or the draft would tell it twice
  cases i
  case path text =>
    have hnone : d.path = none := eq_none_of_toList hpath
    rw [hnone] at hpath
    exact ⟨_, .path text hnone, hpath, hticks, hsteps, hseed, hhold, hdump, by simpa using htrace,
      by simpa using hframe⟩
  case ticks n =>
    have hnone : d.ticks = none := eq_none_of_toList hticks
    rw [hnone] at hticks
    exact ⟨_, .ticks n hnone, hpath, hticks, hsteps, hseed, hhold, hdump, by simpa using htrace,
      by simpa using hframe⟩
  case stepsPerTick n =>
    have hnone : d.stepsPerTick = none := eq_none_of_toList hsteps
    rw [hnone] at hsteps
    exact ⟨_, .stepsPerTick n hnone, hpath, hticks, hsteps, hseed, hhold, hdump,
      by simpa using htrace, by simpa using hframe⟩
  case seed n =>
    have hnone : d.seed = none := eq_none_of_toList hseed
    rw [hnone] at hseed
    exact ⟨_, .seed n hnone, hpath, hticks, hsteps, hseed, hhold, hdump, by simpa using htrace,
      by simpa using hframe⟩
  case hold k =>
    exact ⟨_, .hold k, hpath, hticks, hsteps, hseed, by simpa [Item.hold?] using hhold, hdump,
      by simpa using htrace, by simpa using hframe⟩
  case dump kind =>
    exact ⟨_, .dump kind, hpath, hticks, hsteps, hseed, hhold, by simpa [Item.dump?] using hdump,
      by simpa using htrace, by simpa using hframe⟩
  case trace =>
    rw [List.count_cons_self] at htrace
    have hoff : d.trace = false := eq_false_of_toNat htrace
    rw [hoff] at htrace
    exact ⟨_, .trace hoff, hpath, hticks, hsteps, hseed, hhold, hdump,
      by simpa [Nat.add_comm] using htrace, by simpa using hframe⟩
  case noFrame =>
    rw [List.count_cons_self] at hframe
    have hoff : d.noFrame = false := eq_false_of_toNat hframe
    rw [hoff] at hframe
    exact ⟨_, .noFrame hoff, hpath, hticks, hsteps, hseed, hhold, hdump, by simpa using htrace,
      by simpa [Nat.add_comm] using hframe⟩

/-! ### Values and paths -/

theorem readNumeral_eq_ok_iff {value : String} {n : Nat} :
    readNumeral 10 maxNumber value.toList = .ok n ↔ IsNumber value n := by
  rw [readNumeral_eq_iff (by decide) (by decide)]
  constructor
  · intro hreading
    cases hreading with
    | number hne h hle => exact ⟨by simpa using hne, h, hle⟩
  · rintro ⟨hne, h, hle⟩
    exact .number (by simpa using hne) h hle

theorem readKeySlot_eq_ok_iff {value : String} {k : Nibble} :
    readKeySlot value = .ok k ↔ KeySlot.Reading value.toList (.ok k) := by
  constructor
  · intro h
    obtain ⟨r, hr⟩ := KeySlot.Reading.total value.toList
    have hsound := hr.sound
    rw [h] at hsound
    rwa [← show r = .ok k from hsound.symm]
  · intro h
    have hsound := h.sound
    cases hread : readKeySlot value with
    | error e =>
      rw [hread] at hsound
      cases hsound
    | ok k' =>
      rw [hread] at hsound
      cases hsound
      rfl

theorem readDump_eq_ok_iff {value : String} {kind : Dump} :
    readDump value = .ok kind ↔ value = kind.name := by
  constructor
  · intro h
    unfold readDump at h
    split at h
    case h_4 => cases h
    all_goals
      cases h
      rfl
  · rintro rfl
    cases kind <;> rfl

theorem readOnce_eq_ok_iff {s : Setting} {before : Option Nat} {value : String} {n : Nat} :
    readOnce s before value = .ok n ↔ before = none ∧ IsNumber value n := by
  rw [← readNumeral_eq_ok_iff]
  cases before with
  | some m => simp [readOnce]
  | none =>
    rw [readOnce]
    cases readNumeral 10 maxNumber value.toList <;> simp

/-- An option and its value add to a draft what the item does that the value is written for. -/
theorem set_eq_ok_iff {s : Setting} {value : String} :
    d.set s value = .ok d' ↔ ∃ i, i.IsValue s value ∧ d.Takes i d' := by
  constructor
  · intro h
    cases s
    case hold =>
      simp only [set] at h
      split at h
      case h_1 k hk =>
        cases h
        exact ⟨.hold k, .hold (readKeySlot_eq_ok_iff.1 hk), .hold k⟩
      case h_2 => cases h
    case dump =>
      obtain ⟨kind, hread, rfl⟩ := exists_of_map_eq_ok h
      rw [readDump_eq_ok_iff.1 hread]
      exact ⟨.dump kind, .dump kind, .dump kind⟩
    all_goals
      obtain ⟨n, hread, rfl⟩ := exists_of_map_eq_ok h
      obtain ⟨hnone, hn⟩ := readOnce_eq_ok_iff.1 hread
    case ticks => exact ⟨_, .ticks hn, .ticks n hnone⟩
    case stepsPerTick => exact ⟨_, .stepsPerTick hn, .stepsPerTick n hnone⟩
    case seed => exact ⟨_, .seed hn, .seed n hnone⟩
  · rintro ⟨i, hi, ht⟩
    cases hi with
    | ticks hn =>
      cases ht with
      | ticks n h => rw [set, readOnce_eq_ok_iff.2 ⟨h, hn⟩]; rfl
    | stepsPerTick hn =>
      cases ht with
      | stepsPerTick n h => rw [set, readOnce_eq_ok_iff.2 ⟨h, hn⟩]; rfl
    | seed hn =>
      cases ht with
      | seed n h => rw [set, readOnce_eq_ok_iff.2 ⟨h, hn⟩]; rfl
    | hold hk =>
      cases ht
      rw [set, readKeySlot_eq_ok_iff.2 hk]
    | dump kind =>
      cases ht
      rw [set, readDump_eq_ok_iff.2 rfl]
      rfl

theorem setPath_eq_ok_iff {text : String} :
    d.setPath text = .ok d' ↔ text ≠ "" ∧ { d with path := some text } = d' := by
  rw [setPath]
  by_cases h : text = ""
  · simp [h]
  · simp [h]

theorem turnOn_trace_eq_ok_iff : d.turnOn .trace = .ok d' ↔ d.Takes .trace d' := by
  constructor
  · intro h
    rw [turnOn] at h
    split at h
    case isTrue => cases h
    case isFalse hoff =>
      cases h
      exact .trace (Bool.eq_false_of_not_eq_true hoff)
  · intro h
    cases h with
    | trace hoff => simp [turnOn, hoff]

theorem turnOn_noFrame_eq_ok_iff : d.turnOn .noFrame = .ok d' ↔ d.Takes .noFrame d' := by
  constructor
  · intro h
    rw [turnOn] at h
    split at h
    case isTrue => cases h
    case isFalse hoff =>
      cases h
      exact .noFrame (Bool.eq_false_of_not_eq_true hoff)
  · intro h
    cases h with
    | noFrame hoff => simp [turnOn, hoff]

end Draft

/-! ### Items and arguments -/

namespace Reader

variable {d d' : Draft} {r : Reader} {i : Item} {items : List Item} {text : String}
  {texts arguments : List String}

/-- The state between two options, with nothing to be judged. -/
def between (d : Draft) : Reader where
  draft := d
  pending := none
  ended := false

/-- What an argument between two options comes to. -/
theorem accept_between {a : Argument} (h : Argument.ofText text = a) :
    (between d).accept text = (between d).acceptArgument a := by
  rw [accept_of_not_ended rfl, h]

theorem acceptArgument_attached (d : Draft) (s : Setting) (value : String) :
    (between d).acceptArgument (.setting s (some value)) = (d.set s value).map between :=
  rfl

theorem acceptArgument_switch (d : Draft) (s : Switch) :
    (between d).acceptArgument (.switch s none) = (d.turnOn s).map between :=
  rfl

theorem acceptArgument_path (d : Draft) (text : String) :
    (between d).acceptArgument (.plain text)
      = if d.path.isSome then .error (.wrong (.secondPath text))
        else .ok ⟨d, some (.path text), false⟩ :=
  rfl

/-- What is pending and good may be judged before the arguments that follow. -/
theorem draftAfter_of_pending {p : Pending} {d₁ : Draft}
    (h : (⟨d, some p, false⟩ : Reader).settle = .ok d₁) (texts : List String) :
    (⟨d, some p, false⟩ : Reader).draftAfter texts = (between d₁).draftAfter texts :=
  (draftAfter_settled h texts).symm

/-- An item is read as what it adds. -/
theorem draftAfter_written {d₁ : Draft} (hw : i.Written texts) (ht : d.Takes i d₁)
    (later : List String) :
    (between d).draftAfter (texts ++ later) = (between d₁).draftAfter later := by
  cases hw with
  | @path text hne h =>
    cases ht with
    | path _ hnone =>
      have haccept : (between d).accept text = .ok ⟨d, some (.path text), false⟩ := by
        rw [accept_between h.sound, acceptArgument_path, hnone]
        rfl
      have hjudge : (⟨d, some (.path text), false⟩ : Reader).settle = _ :=
        Draft.setPath_eq_ok_iff.2 ⟨hne, rfl⟩
      rw [List.singleton_append, draftAfter_of_ok haccept, draftAfter_of_pending hjudge]
  | @apart i s name value hname h hvalue =>
    have hoption : (between d).accept name = .ok ⟨d, some (.setting s none), false⟩ :=
      accept_between (Argument.Spelling.setting hname).sound
    have hnext : (⟨d, some (.setting s none), false⟩ : Reader).accept value
        = .ok ⟨d, some (.setting s (some value)), false⟩ := by
      rw [accept_of_not_ended rfl, h.sound]
      rfl
    have hjudge : (⟨d, some (.setting s (some value)), false⟩ : Reader).settle = .ok d₁ :=
      Draft.set_eq_ok_iff.2 ⟨i, hvalue, ht⟩
    rw [List.cons_append, List.singleton_append, draftAfter_of_ok hoption, draftAfter_of_ok hnext,
      draftAfter_of_pending hjudge]
  | @attached i s text value h hvalue =>
    have haccept : (between d).accept text = .ok (between d₁) := by
      rw [accept_between h.sound, acceptArgument_attached,
        Draft.set_eq_ok_iff.2 ⟨i, hvalue, ht⟩]
      rfl
    rw [List.singleton_append, draftAfter_of_ok haccept]
  | trace =>
    have haccept : (between d).accept "--trace" = .ok (between d₁) := by
      rw [accept_between (a := .switch .trace none) rfl, acceptArgument_switch,
        Draft.turnOn_trace_eq_ok_iff.2 ht]
      rfl
    rw [List.singleton_append, draftAfter_of_ok haccept]
  | noFrame =>
    have haccept : (between d).accept "--no-frame" = .ok (between d₁) := by
      rw [accept_between (a := .switch .noFrame none) rfl, acceptArgument_switch,
        Draft.turnOn_noFrame_eq_ok_iff.2 ht]
      rfl
    rw [List.singleton_append, draftAfter_of_ok haccept]

/-- Items are read as what they add, one after the other. -/
theorem draftAfter_eq_ok_of_written (hw : Written items arguments) (h : d.TellsAfter items d') :
    (between d).draftAfter arguments = .ok d' := by
  induction hw generalizing d with
  | nil => rw [Draft.tellsAfter_nil_iff.1 h]; rfl
  | cons hi _ ih =>
    obtain ⟨d₁, ht, hrest⟩ := h.exists_takes
    rw [draftAfter_written hi ht, ih hrest]
  | ended => rw [Draft.tellsAfter_nil_iff.1 h]; rfl
  | @endedPath text hne =>
    obtain ⟨d₁, ht, hrest⟩ := h.exists_takes
    obtain rfl := Draft.tellsAfter_nil_iff.1 hrest
    cases ht with
    | path _ hnone =>
      have hpath : (⟨d, none, true⟩ : Reader).accept text = .ok ⟨d, some (.path text), true⟩ := by
        rw [accept_of_ended rfl, acceptPath]
        simp [hasPath, hnone, settle, Except.map]
      have hend : (between d).accept "--" = .ok ⟨d, none, true⟩ := rfl
      rw [draftAfter_of_ok hend, draftAfter_of_ok hpath]
      exact Draft.setPath_eq_ok_iff.2 ⟨hne, rfl⟩

/-! ### Arguments and items -/

/-- What is pending and bad leaves no draft. -/
theorem not_ok_of_settle_error {n : NoRequest} (h : r.settle = .error n)
    (hvalue : r.ended = true ∨ ¬ r.IsWaiting) : r.draftAfter texts ≠ .ok d := by
  intro hok
  rcases draftAfter_of_settle_error h hvalue texts with herror | ⟨e, herror, -⟩
  · rw [hok] at herror
    cases herror
  · rw [hok] at herror
    cases herror

/-- What is pending leaves a draft only if it is good. -/
theorem exists_of_pending {p : Pending} (hp : ∀ s, p ≠ .setting s none)
    (h : (⟨d, some p, false⟩ : Reader).draftAfter texts = .ok d') :
    ∃ d₁, (⟨d, some p, false⟩ : Reader).settle = .ok d₁
      ∧ (between d₁).draftAfter texts = .ok d' := by
  cases hs : (⟨d, some p, false⟩ : Reader).settle with
  | ok d₁ => exact ⟨d₁, rfl, (draftAfter_of_pending hs texts).symm.trans h⟩
  | error n =>
    have hfree : ¬ (⟨d, some p, false⟩ : Reader).IsWaiting := fun ⟨s, hw⟩ =>
      hp s (Option.some.inj hw)
    exact absurd h (not_ok_of_settle_error hs (.inr hfree))

/-- An option that waits for its value gets it from the next argument. -/
theorem exists_of_waiting {s : Setting}
    (h : (⟨d, some (.setting s none), false⟩ : Reader).draftAfter texts = .ok d') :
    ∃ value later, texts = value :: later ∧ (Argument.plain value).Spelling value
      ∧ (⟨d, some (.setting s (some value)), false⟩ : Reader).draftAfter later = .ok d' := by
  cases texts with
  | nil => cases h
  | cons value later =>
    by_cases hplain : ∃ v, Argument.ofText value = .plain v
    · obtain ⟨v, hv⟩ := hplain
      cases (Argument.ofText_eq_iff (by simp)).1 hv with
      | plain hdash =>
        have hnext : (⟨d, some (.setting s none), false⟩ : Reader).accept value
            = .ok ⟨d, some (.setting s (some value)), false⟩ := by
          rw [accept_of_not_ended rfl, hv]
          rfl
        exact ⟨value, later, rfl, .plain hdash, (draftAfter_of_ok hnext later).symm.trans h⟩
    · -- any other argument finds the value missing
      have hs : (⟨d, some (.setting s none), false⟩ : Reader).settle = .error _ := rfl
      exfalso
      rcases accept_of_settle_error hs (.inr (.inr (not_exists.1 hplain))) with
        hended | herror | ⟨e, herror, -⟩
      · rw [draftAfter_of_ok hended] at h
        exact not_ok_of_settle_error (r := ⟨d, some (.setting s none), true⟩) hs (.inl rfl) h
      · rw [draftAfter_of_error herror] at h
        cases h
      · rw [draftAfter_of_error herror] at h
        cases h

/-- Behind the end of the options there is a path or nothing. -/
theorem written_of_ended (h : (⟨d, none, true⟩ : Reader).draftAfter texts = .ok d') :
    ∃ items, Written items ("--" :: texts) ∧ d.TellsAfter items d' := by
  cases texts with
  | nil =>
    cases h
    exact ⟨[], .ended, Draft.tellsAfter_nil_iff.2 rfl⟩
  | cons text later =>
    cases hpath : d.path with
    | some other =>
      have hsecond : (⟨d, none, true⟩ : Reader).accept text
          = .error (.wrong (.secondPath text)) := by
        rw [accept_of_ended rfl, acceptPath]
        simp [hasPath, hpath]
      rw [draftAfter_of_error hsecond] at h
      cases h
    | none =>
      have hfirst : (⟨d, none, true⟩ : Reader).accept text = .ok ⟨d, some (.path text), true⟩ := by
        rw [accept_of_ended rfl, acceptPath]
        simp [hasPath, hpath, settle, Except.map]
      rw [draftAfter_of_ok hfirst] at h
      cases later with
      | cons other later =>
        have hsecond : (⟨d, some (.path text), true⟩ : Reader).accept other
            = .error (.wrong (.secondPath other)) := by
          rw [accept_of_ended rfl]
          rfl
        rw [draftAfter_of_error hsecond] at h
        cases h
      | nil =>
        obtain ⟨hne, rfl⟩ := Draft.setPath_eq_ok_iff.1 (show d.setPath text = .ok d' from h)
        exact ⟨[.path text], .endedPath hne, (Draft.Takes.path text hpath).tellsAfter⟩

/-- Arguments that leave a draft start with those of an item, or with the end of the options. -/
theorem exists_first (h : (between d).draftAfter (text :: texts) = .ok d') :
    (∃ i front later d₁, text :: texts = front ++ later ∧ front ≠ [] ∧ i.Written front
      ∧ d.Takes i d₁ ∧ (between d₁).draftAfter later = .ok d')
    ∨ ∃ items, Written items (text :: texts) ∧ d.TellsAfter items d' := by
  have hone : ∀ {i d₁}, (between d).accept text = .ok (between d₁) → i.Written [text] →
      d.Takes i d₁ → ∃ i front later d₁, text :: texts = front ++ later ∧ front ≠ []
        ∧ Item.Written i front ∧ d.Takes i d₁ ∧ (between d₁).draftAfter later = .ok d' := by
    intro i d₁ haccept hi ht
    rw [draftAfter_of_ok haccept] at h
    exact ⟨i, [text], texts, d₁, rfl, by simp, hi, ht, h⟩
  have hnot : ∀ {n}, (between d).accept text ≠ .error n := by
    intro n herror
    rw [draftAfter_of_error herror] at h
    cases h
  rcases Argument.spelling_ofText text with hspelling | ⟨name, hunknown⟩
  · generalize ha : Argument.ofText text = a at hspelling
    have haccept := accept_between (d := d) ha
    cases a with
    | terminator =>
      cases hspelling
      have hend : (between d).accept "--" = .ok ⟨d, none, true⟩ := haccept
      rw [draftAfter_of_ok hend] at h
      exact .inr (written_of_ended h)
    | setting s attached =>
      cases attached with
      | none =>
        have hoption : (between d).accept text = .ok ⟨d, some (.setting s none), false⟩ := haccept
        rw [draftAfter_of_ok hoption] at h
        obtain ⟨value, later, rfl, hvalue, h⟩ := exists_of_waiting h
        obtain ⟨d₁, hset, h⟩ := exists_of_pending (by simp) h
        obtain ⟨i, hi, ht⟩ := Draft.set_eq_ok_iff.1 hset
        cases hspelling with
        | setting hname =>
          exact .inl ⟨i, [text, value], later, d₁, rfl, by simp, .apart hname hvalue hi, ht, h⟩
      | some value =>
        rw [acceptArgument_attached] at haccept
        cases hset : d.set s value with
        | error n => exact absurd (haccept.trans (by rw [hset]; rfl)) hnot
        | ok d₁ =>
          obtain ⟨i, hi, ht⟩ := Draft.set_eq_ok_iff.1 hset
          rw [hset] at haccept
          exact .inl (hone haccept (.attached hspelling hi) ht)
    | switch s attached =>
      cases attached with
      | some value => exact absurd haccept hnot
      | none =>
        rw [acceptArgument_switch] at haccept
        cases hon : d.turnOn s with
        | error n => exact absurd (haccept.trans (by rw [hon]; rfl)) hnot
        | ok d₁ =>
          rw [hon] at haccept
          cases s with
          | trace =>
            cases hspelling
            exact .inl (hone haccept .trace (Draft.turnOn_trace_eq_ok_iff.1 hon))
          | noFrame =>
            cases hspelling
            exact .inl (hone haccept .noFrame (Draft.turnOn_noFrame_eq_ok_iff.1 hon))
          | help form => cases hon
    | unknown name => cases hspelling
    | plain path =>
      obtain rfl : path = text := by cases hspelling; rfl
      rw [acceptArgument_path] at haccept
      cases hpath : d.path with
      | some other => exact absurd (haccept.trans (by rw [hpath]; rfl)) hnot
      | none =>
        rw [hpath] at haccept
        have hpending : (between d).accept path = .ok ⟨d, some (.path path), false⟩ := haccept
        rw [draftAfter_of_ok hpending] at h
        obtain ⟨d₁, hset, h⟩ := exists_of_pending (by simp) h
        obtain ⟨hne, rfl⟩ := Draft.setPath_eq_ok_iff.1 hset
        exact .inl ⟨.path path, [path], texts, _, rfl, by simp, .path hne hspelling,
          .path path hpath, h⟩
  · exact absurd (accept_between hunknown) hnot

/-- Arguments that leave a draft are items, and the draft tells what they add. -/
theorem exists_written_of_draftAfter (h : (between d).draftAfter arguments = .ok d') :
    ∃ items, Written items arguments ∧ d.TellsAfter items d' := by
  -- by the number of arguments, of which an item takes one or two
  induction hn : arguments.length using Nat.strong_induction_on generalizing d arguments with
  | _ n ih =>
    cases arguments with
    | nil =>
      cases h
      exact ⟨[], .nil, Draft.tellsAfter_nil_iff.2 rfl⟩
    | cons text texts =>
      rcases exists_first h with ⟨i, front, later, d₁, hsplit, hne, hi, ht, hlater⟩ | hended
      · have hlength := congrArg List.length hsplit
        rw [List.length_append, hn] at hlength
        have hpos := List.length_pos_iff.2 hne
        obtain ⟨items, hitems, htells⟩ := ih later.length (by omega) hlater rfl
        rw [hsplit]
        exact ⟨i :: items, .cons hi hitems, ht.tellsAfter.trans htells⟩
      · exact hended

/-- Arguments leave a draft exactly if they are items that may come together, and it is the draft
that tells what they add. -/
theorem draftAfter_eq_ok_iff :
    (between d).draftAfter arguments = .ok d'
      ↔ ∃ items, Written items arguments ∧ d.TellsAfter items d' :=
  ⟨exists_written_of_draftAfter, fun ⟨_, hw, h⟩ => draftAfter_eq_ok_of_written hw h⟩

end Reader

/-! ### Requests -/

namespace Options

variable {o : Options} {items : List Item} {arguments : List String}

/-- A request is what some items ask for: the one path; of the ticks, the steps of a tick and the
seed what is given, if it is given, and it is given once at most; all keys and all snapshots in
their order; and the switches, each given once at most. -/
structure AskedBy (o : Options) (items : List Item) : Prop where
  /-- There is one path. -/
  path_eq : items.filterMap Item.path? = [o.path]
  /-- Sixty ticks are made where nothing is said about them. -/
  ticks_eq : ∃ given : Option Nat,
    items.filterMap Item.ticks? = given.toList ∧ o.ticks = given.getD 60
  /-- A tick makes ten steps where nothing is said about it. -/
  stepsPerTick_eq : ∃ given : Option Nat,
    items.filterMap Item.stepsPerTick? = given.toList ∧ o.stepsPerTick = given.getD 10
  /-- There may be a seed. -/
  seed_eq : items.filterMap Item.seed? = o.seed.toList
  /-- The keys are all that are given. -/
  hold_eq : items.filterMap Item.hold? = o.hold
  /-- The snapshots are all that are given. -/
  dump_eq : items.filterMap Item.dump? = o.dump
  /-- Traces are asked for by a switch. -/
  trace_eq : items.count .trace = o.trace.toNat
  /-- The picture is refused by a switch. -/
  noFrame_eq : items.count .noFrame = o.noFrame.toNat

/-- A draft that tells what items ask for amounts to the request that they make. -/
theorem askedBy_iff :
    o.AskedBy items ↔ ∃ d, Draft.empty.TellsAfter items d ∧ d.finish = .ok o := by
  constructor
  · rintro ⟨hpath, ⟨ticks, hticks, hticks'⟩, ⟨steps, hsteps, hsteps'⟩, hseed, hhold, hdump, htrace,
      hframe⟩
    refine ⟨⟨some o.path, ticks, steps, o.seed, o.hold, o.trace, o.dump, o.noFrame⟩, ?_, ?_⟩
    · constructor <;> simp [Draft.empty, *]
    · simp [Draft.finish, ← hticks', ← hsteps']
  · rintro ⟨d, ⟨hpath, hticks, hsteps, hseed, hhold, hdump, htrace, hframe⟩, hfinish⟩
    unfold Draft.finish at hfinish
    split at hfinish
    case h_1 => cases hfinish
    case h_2 path hsome =>
      cases hfinish
      rw [hsome] at hpath
      exact ⟨hpath.symm, ⟨_, hticks.symm, rfl⟩, ⟨_, hsteps.symm, rfl⟩, hseed.symm, hhold.symm,
        hdump.symm, by simpa [Draft.empty] using htrace.symm,
        by simpa [Draft.empty] using hframe.symm⟩

/-- A list of arguments makes a request exactly if it is written as items that ask for it. -/
theorem read_eq_ok_iff :
    Options.read arguments = .ok o ↔ ∃ items, Written items arguments ∧ o.AskedBy items := by
  simp only [askedBy_iff]
  rw [Reader.read_eq_draftAfter, show Reader.start = .between .empty from rfl]
  constructor
  · intro h
    cases hd : (Reader.between .empty).draftAfter arguments with
    | error n => rw [hd] at h; cases h
    | ok d =>
      obtain ⟨items, hw, htells⟩ := Reader.draftAfter_eq_ok_iff.1 hd
      rw [hd] at h
      exact ⟨items, hw, d, htells, h⟩
  · rintro ⟨items, hw, d, htells, hfinish⟩
    rw [Reader.draftAfter_eq_ok_iff.2 ⟨items, hw, htells⟩]
    exact hfinish

end Options

/-! ### Every request can be made -/

/-- Every number of 64 bits can be written. -/
theorem exists_isNumber {n : Nat} (hn : n ≤ Draft.maxNumber) : ∃ text, IsNumber text n := by
  -- a zero in front, so that there is a digit and no sign
  let ds := 0 :: (Nat.digits 10 n).reverse
  have hdigits : List.Forall₂ (Denotes 10) (ds.map Hex.digit) ds := by
    rw [List.forall₂_map_left_iff, List.forall₂_same]
    intro d hd
    refine ⟨?_, .inl rfl⟩
    rcases List.mem_cons.1 hd with rfl | hd
    · decide
    · exact Nat.digits_lt_base (by decide) (List.mem_reverse.1 hd)
  have hvalue : Nat.ofDigits 10 ds.reverse = n := by
    rw [List.reverse_cons, List.reverse_reverse, Nat.ofDigits_append, Nat.ofDigits_digits]
    simp
  refine ⟨String.ofList (ds.map Hex.digit), by simp [ds], ?_, hn⟩
  rw [String.toList_ofList, unsigned, if_neg (by simp [ds, Hex.digit])]
  exact ⟨ds, hdigits, hvalue⟩

/-- Every key can be named. -/
theorem exists_keySlot (k : Nibble) : ∃ value : String, KeySlot.Reading value.toList (.ok k) := by
  let cs := '0' :: 'x' :: [Hex.digit k.val]
  have hmark : KeySlot.IsMarked cs := .inl ⟨_, rfl⟩
  have hradix : KeySlot.radix cs = 16 := if_pos hmark
  have hdigits : KeySlot.digits cs = [Hex.digit k.val] := by
    rw [KeySlot.digits, KeySlot.body, if_pos hmark]
    rfl
  refine ⟨String.ofList cs, ?_⟩
  rw [String.toList_ofList]
  refine .slot (by simp [hdigits]) ?_
  rw [hradix, hdigits]
  exact ⟨[k.val], .cons ⟨k.isLt, .inl rfl⟩ .nil, by simp⟩

/-- What is no path can be written if it is a key, a snapshot, a switch or a number of 64 bits. -/
theorem Item.exists_written {i : Item} (hpath : i.path? = none)
    (hbound : ∀ n, i = .ticks n ∨ i = .stepsPerTick n ∨ i = .seed n → n ≤ Draft.maxNumber) :
    ∃ texts, i.Written texts := by
  have hattached : ∀ {s value}, i.IsValue s value → ∃ texts, i.Written texts := fun {s value} h =>
    ⟨_, .attached (.assigned (List.mem_cons_self (a := "--" ++ s.name)) value) h⟩
  cases i with
  | path text => cases hpath
  | ticks n =>
    obtain ⟨value, h⟩ := exists_isNumber (hbound n (.inl rfl))
    exact hattached (.ticks h)
  | stepsPerTick n =>
    obtain ⟨value, h⟩ := exists_isNumber (hbound n (.inr (.inl rfl)))
    exact hattached (.stepsPerTick h)
  | seed n =>
    obtain ⟨value, h⟩ := exists_isNumber (hbound n (.inr (.inr rfl)))
    exact hattached (.seed h)
  | hold k =>
    obtain ⟨value, h⟩ := exists_keySlot k
    exact hattached (.hold h)
  | dump kind => exact hattached (.dump kind)
  | trace => exact ⟨_, .trace⟩
  | noFrame => exact ⟨_, .noFrame⟩

/-- Items that can be written one by one can be written together, with a path behind them. -/
theorem exists_written_path {items : List Item} (h : ∀ i ∈ items, ∃ texts, i.Written texts)
    {text : String} (hne : text ≠ "") : ∃ arguments, Written (items ++ [.path text]) arguments := by
  induction items with
  | nil => exact ⟨_, .endedPath hne⟩
  | cons i rest ih =>
    obtain ⟨texts, hi⟩ := h i List.mem_cons_self
    obtain ⟨arguments, hrest⟩ := ih fun j hj => h j (List.mem_cons_of_mem _ hj)
    exact ⟨_, .cons hi hrest⟩

/-- The items of a request, but for its path. -/
def Options.items (o : Options) : List Item :=
  [.ticks o.ticks, .stepsPerTick o.stepsPerTick] ++ o.seed.toList.map .seed ++ o.hold.map .hold
    ++ o.dump.map .dump ++ List.replicate o.trace.toNat .trace
    ++ List.replicate o.noFrame.toNat .noFrame

theorem Options.askedBy_items (o : Options) : o.AskedBy (o.items ++ [.path o.path]) where
  path_eq := by
    simp [items, Item.path?, List.filterMap_cons, List.filterMap_map, List.filterMap_replicate,
      Function.comp_def]
  ticks_eq := by
    refine ⟨some o.ticks, ?_, rfl⟩
    simp [items, Item.ticks?, List.filterMap_cons, List.filterMap_map, Function.comp_def]
  stepsPerTick_eq := by
    refine ⟨some o.stepsPerTick, ?_, rfl⟩
    simp [items, Item.stepsPerTick?, List.filterMap_cons, List.filterMap_map, Function.comp_def]
  seed_eq := by simp [items, Item.seed?, List.filterMap_cons, List.filterMap_map, Function.comp_def]
  hold_eq := by simp [items, Item.hold?, List.filterMap_cons, List.filterMap_map, Function.comp_def]
  dump_eq := by simp [items, Item.dump?, List.filterMap_cons, List.filterMap_map, Function.comp_def]
  trace_eq := by simp [items, List.count_eq_zero_of_not_mem]
  noFrame_eq := by simp [items, List.count_eq_zero_of_not_mem]

/-- Every request for a path, with numbers of 64 bits, can be made. -/
theorem Options.exists_written {o : Options} (hpath : o.path ≠ "")
    (hticks : o.ticks ≤ Draft.maxNumber) (hsteps : o.stepsPerTick ≤ Draft.maxNumber)
    (hseed : ∀ n, o.seed = some n → n ≤ Draft.maxNumber) :
    ∃ items arguments, Written items arguments ∧ o.AskedBy items := by
  have hitems : ∀ i ∈ o.items, ∃ texts, i.Written texts := by
    intro i hi
    refine Item.exists_written ?_ ?_
    · have hnone : o.items.filterMap Item.path? = [] := by
        have h := o.askedBy_items.path_eq
        rw [List.filterMap_append] at h
        exact List.append_cancel_right (h.trans (List.nil_append [o.path]).symm)
      exact List.filterMap_eq_nil_iff.1 hnone i hi
    · rintro n (rfl | rfl | rfl)
      · obtain rfl : n = o.ticks := by simpa [items] using hi
        exact hticks
      · obtain rfl : n = o.stepsPerTick := by simpa [items] using hi
        exact hsteps
      · exact hseed n (by simpa [items] using hi)
  obtain ⟨arguments, h⟩ := exists_written_path hitems hpath
  exact ⟨_, arguments, h, o.askedBy_items⟩

end ChipEight.CommandLine
