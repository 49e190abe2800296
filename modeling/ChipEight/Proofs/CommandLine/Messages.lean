import ChipEight.CommandLine.Options
import ChipEight.Proofs.Text.Terminal

namespace ChipEight.CommandLine.UsageError

/-!
# Messages — what is said about arguments

A message about arguments quotes them, and they can hold anything. Whatever they hold, no order to
the terminal gets into the message, and an argument without orders is quoted as it is.

* `quoted_eq` — arguments without orders;
* `plain_text` — messages are plain.
-/

open Terminal

/-- A text without orders is quoted as it is. -/
theorem quoted_eq {text : String} (h : Plain text.toList) : quoted text = "'" ++ text ++ "'" := by
  rw [quoted, shown_eq_self_iff.2 h, String.ofList_toList]

theorem plain_join {t u : String} (ht : Plain t.toList) (hu : Plain u.toList) :
    Plain (t ++ u).toList := by
  rw [String.toList_append]
  exact plain_append.2 ⟨ht, hu⟩

theorem plain_quoted (text : String) : Plain (quoted text).toList := by
  refine plain_join (plain_join (by decide) ?_) (by decide)
  rw [String.toList_ofList]
  exact plain_shown text.toList

/-- A digit is shown. -/
theorem shows_of_digitValue {c : Char} (h : (Hex.digitValue? c).isSome = true) :
    State.ground.shows c = true := by
  have hle : ∀ {c d : Char}, c ≤ d → c.toNat ≤ d.toNat := UInt32.le_iff_toNat_le.1
  have hbounds : '0'.toNat ≤ c.toNat ∧ c.toNat ≤ 'f'.toNat := by
    rw [Hex.digitValue?] at h
    split at h
    case isTrue hc => exact ⟨hle hc.1, Nat.le_trans (hle hc.2) (by decide)⟩
    case isFalse =>
      split at h
      case isTrue hc => exact ⟨Nat.le_trans (by decide) (hle hc.1), hle hc.2⟩
      case isFalse =>
        split at h
        case isTrue hc =>
          exact ⟨Nat.le_trans (by decide) (hle hc.1), Nat.le_trans (hle hc.2) (by decide)⟩
        case isFalse => cases h
  have hblank : ' ' ≤ c := UInt32.le_iff_toNat_le.2 (Nat.le_trans (by decide) hbounds.1)
  have hdelete : c ≠ '\x7f' := by
    rintro rfl
    exact absurd hbounds.2 (by decide)
  simp [State.shows, hblank, hdelete]

/-- The digits of a number are shown. -/
theorem plain_marked (width n : Nat) : Plain (Hex.marked width n).toList := by
  rw [Hex.marked, Hex.text]
  refine plain_join (by decide) ?_
  rw [String.toList_ofList]
  exact plain_iff.2 fun c hc => shows_of_digitValue (Hex.isSome_of_mem_padded hc)

theorem plain_numeral (e : NumeralError) : Plain e.message.toList := by
  cases e <;> decide

theorem plain_keySlot (e : KeySlotError) : Plain e.message.toList := by
  cases e with
  | numeral e => exact plain_numeral e
  | noSlot value => exact plain_join (plain_marked 1 value) (by decide)

theorem plain_settingForm (s : Setting) : Plain s.form.toList := by
  cases s <;> decide

theorem plain_switchForm (s : Switch) : Plain s.form.toList := by
  cases s with
  | trace => decide
  | noFrame => decide
  | help form => cases form <;> decide

theorem plain_choices (s : Setting) : Plain (choices s).toList := by
  cases s <;> decide

theorem plain_unexpected (text : String) : Plain (unexpected text).toList :=
  plain_join (plain_join (by decide) (plain_quoted text)) (by decide)

theorem plain_absent {form : String} (h : Plain form.toList) : Plain (absent form).toList :=
  plain_join (plain_join (by decide) h) (by decide)

theorem plain_again {form : String} (h : Plain form.toList) : Plain (again form).toList :=
  plain_join (plain_join (by decide) h) (by decide)

theorem plain_invalid (s : Setting) (value : String) : Plain (invalid s value).toList :=
  plain_join (plain_join (plain_join (plain_join (by decide) (plain_quoted value)) (by decide))
    (plain_settingForm s)) (by decide)

/-- **No message about arguments holds an order to the terminal.** -/
theorem plain_text (e : UsageError) : Plain e.text.toList := by
  cases e with
  | unknownOption name => exact plain_unexpected name
  | attachedValue s value =>
    exact plain_join (plain_join (plain_join (plain_join (by decide) (plain_quoted value))
      (by decide)) (plain_switchForm s)) (by decide)
  | missingValue s => exact plain_join (plain_absent (plain_settingForm s)) (plain_choices s)
  | repeatedSetting s => exact plain_again (plain_settingForm s)
  | repeatedSwitch s => exact plain_again (plain_switchForm s)
  | badNumeral s value e =>
    exact plain_join (plain_join (plain_invalid s value) (by decide)) (plain_numeral e)
  | badKey value e =>
    exact plain_join (plain_join (plain_invalid .hold value) (by decide)) (plain_keySlot e)
  | badDump value =>
    refine plain_join ?_ (plain_choices .dump)
    split
    · exact plain_absent (plain_settingForm .dump)
    · exact plain_invalid .dump value
  | emptyPath => exact plain_absent (by decide)
  | secondPath text => exact plain_unexpected text
  | missingPath => decide

end ChipEight.CommandLine.UsageError
