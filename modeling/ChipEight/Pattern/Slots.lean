import Std.Data.TreeMap

namespace ChipEight.Pattern

/-!
# Slots — a table that forgets

A table has a number of slots, and the digest of a key tells which slot its entry goes to. An entry
takes the place of one that is there already, so that a key is forgotten as soon as another is sent
to its slot.

* `Slots`, `Slots.cleared` — tables, and those without an entry;
* `Slots.digest`, `Slots.slot` — where the entry of a key goes to;
* `Slots.find?`, `Slots.put` — what is known of a key, and a table with one entry more.
-/

/-- A table whose keys are lists of numbers, and whose values are numbers. -/
structure Slots where
  /-- How many slots there are. -/
  count : Nat
  /-- The entries by their slots: a key and its value. -/
  entries : Std.TreeMap Nat (List Nat × Nat)

namespace Slots

/-- The table with so many slots and without an entry. -/
def cleared (count : Nat) : Slots where
  count := count
  entries := ∅

/-- The digest of a key: for each of its numbers in turn, the sum without carry with it, times a
prime, in 64 bits. -/
def digest (key : List Nat) : UInt64 :=
  key.foldl (fun h n => (h ^^^ n.toUInt64) * 1099511628211) 14695981039346656037

/-- The slot of a key. -/
def slot (t : Slots) (key : List Nat) : Nat :=
  (digest key).toNat % t.count

/-- The value of a key, unless it was forgotten. -/
def find? (t : Slots) (key : List Nat) : Option Nat :=
  match t.entries[t.slot key]? with
  | some (k, value) => if k = key then some value else none
  | none => none

/-- The table with a value for a key. -/
def put (t : Slots) (key : List Nat) (value : Nat) : Slots :=
  { t with entries := t.entries.insert (t.slot key) (key, value) }

end Slots

end ChipEight.Pattern
