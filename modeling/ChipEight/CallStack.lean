namespace ChipEight

/-!
# Call stack — sixteen slots for return addresses

A call takes the slot at `depth`; a return gives the newest slot back and leaves its content where
it is, so that slots at or above the depth hold addresses that no longer count.

* `CallStack` — the slots and how many of them are taken;
* `CallStack.toList` — the return addresses that count, oldest first;
* `CallStack.push?` — one more address, unless every slot is taken;
* `CallStack.pop?` — the newest address, unless there is none.
-/

/-- The return addresses of the calls in progress. -/
structure CallStack where
  /-- The slots, oldest call first. -/
  slots : Vector UInt16 16
  /-- How many slots are taken. -/
  depth : Nat
deriving DecidableEq, Repr

namespace CallStack

/-- The number of slots. -/
abbrev capacity : Nat := 16

/-- No call in progress. -/
def empty : CallStack where
  slots := Vector.replicate 16 0
  depth := 0

/-- The return addresses that count, oldest first. -/
def toList (s : CallStack) : List UInt16 :=
  s.slots.toList.take s.depth

/-- The stack with one more address, unless every slot is taken. -/
def push? (s : CallStack) (a : UInt16) : Option CallStack :=
  if h : s.depth < 16 then
    some { slots := s.slots.set s.depth a, depth := s.depth + 1 }
  else
    none

/-- The newest address and the stack without it, unless there is none. -/
def pop? (s : CallStack) : Option (UInt16 × CallStack) :=
  if s.depth = 0 then
    none
  else
    some (s.slots.toList.getD (s.depth - 1) 0, { s with depth := s.depth - 1 })

/-! ### The list of addresses -/

@[simp] theorem toList_empty : empty.toList = [] := rfl

theorem length_toList {s : CallStack} (h : s.depth ≤ 16) : s.toList.length = s.depth := by
  simp [toList]; omega

theorem push?_eq_none_iff {s : CallStack} {a : UInt16} : s.push? a = none ↔ 16 ≤ s.depth := by
  simp [push?]

theorem pop?_eq_none_iff {s : CallStack} : s.pop? = none ↔ s.depth = 0 := by
  simp [pop?]

/-- A push appends its address to the list. -/
theorem toList_of_push? {s t : CallStack} {a : UInt16} (h : s.push? a = some t) :
    t.toList = s.toList ++ [a] := by
  unfold push? at h
  split at h
  case isFalse => contradiction
  case isTrue hd =>
    cases h
    simp only [toList, Vector.toList_set, List.take_add_one]
    rw [List.take_set_of_le (Nat.le_refl _)]
    simp [hd]

/-- A pop takes the last address off the list. -/
theorem toList_of_pop? {s t : CallStack} {a : UInt16} (hs : s.depth ≤ 16)
    (h : s.pop? = some (a, t)) : s.toList = t.toList ++ [a] := by
  unfold pop? at h
  split at h
  case isTrue => contradiction
  case isFalse hd =>
    cases h
    obtain ⟨d, hd'⟩ : ∃ d, s.depth = d + 1 := ⟨s.depth - 1, by omega⟩
    have hlt : d < s.slots.toList.length := by simp; omega
    simp only [toList, hd', Nat.add_sub_cancel, List.take_add_one]
    simp [List.getD_eq_getElem?_getD, List.getElem?_eq_getElem hlt]

end CallStack

end ChipEight
