import ChipEight.Nibble

namespace ChipEight

/-!
# Banks — sixteen values named by nibbles

The registers and the keys are banks. A nibble names one of the values and cannot miss.

* `Bank` — the sixteen values;
* `Bank.fill` — one value sixteen times;
* `Bank.get`, `Bank.put` — the value in one place, and another value put there.
-/

/-- Sixteen values, one for each nibble. -/
abbrev Bank (α : Type) := Vector α 16

namespace Bank

variable {α : Type}

/-- The bank with the same value in every place. -/
def fill (a : α) : Bank α :=
  Vector.replicate 16 a

/-- The value in one place. -/
def get (b : Bank α) (k : Nibble) : α :=
  b[k.val]

/-- The bank with another value in one place. -/
def put (b : Bank α) (k : Nibble) (a : α) : Bank α :=
  b.set k.val a

variable {b c : Bank α} {a : α} {k j : Nibble}

/-- A bank is known by its values. -/
theorem ext_get (h : ∀ k, b.get k = c.get k) : b = c :=
  Vector.ext fun i hi => h ⟨i, hi⟩

@[simp] theorem get_fill : (fill a).get j = a := by
  simp [fill, get]

/-- A value that was put is read back, and the other places are as before. -/
theorem get_put : (b.put k a).get j = if k = j then a else b.get j := by
  simp [get, put, Vector.getElem_set, Fin.ext_iff]

@[simp] theorem get_put_self : (b.put k a).get k = a := by
  rw [get_put, if_pos rfl]

theorem get_put_of_ne (h : k ≠ j) : (b.put k a).get j = b.get j := by
  rw [get_put, if_neg h]

end Bank

end ChipEight
