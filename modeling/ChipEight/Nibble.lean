import ChipEight.Fault

namespace ChipEight

/-!
# Nibbles — names of the sixteen registers and keys

* `Nibble` — a number below sixteen;
* `Nibble.ofByte?`, `Nibble.ofByte` — a byte read as a nibble, as an option or as a fault;
* `Nibble.toByte` — the byte that holds it.
-/

/-- Four bits: the number of a register or of a key. -/
abbrev Nibble := Fin 16

/-- The nibble that a byte holds, if the byte is below sixteen. -/
def Nibble.ofByte? (b : UInt8) : Option Nibble :=
  if h : b.toNat < 16 then some ⟨b.toNat, h⟩ else none

/-- The nibble that a byte holds; a byte above fifteen is a fault. -/
def Nibble.ofByte (b : UInt8) : Except Fault Nibble :=
  match Nibble.ofByte? b with
  | some k => .ok k
  | none => .error .notANibble

/-- The byte with the value of a nibble. -/
def Nibble.toByte (k : Nibble) : UInt8 :=
  UInt8.ofNat k.val

@[simp] theorem Nibble.toNat_toByte (k : Nibble) : (Nibble.toByte k).toNat = k.val := by
  simp [Nibble.toByte]; omega

@[simp] theorem Nibble.ofByte?_toByte (k : Nibble) : Nibble.ofByte? (Nibble.toByte k) = some k := by
  simp [Nibble.ofByte?]

theorem Nibble.ofByte?_eq_none_iff {b : UInt8} : Nibble.ofByte? b = none ↔ 16 ≤ b.toNat := by
  simp [Nibble.ofByte?]

end ChipEight
