import ChipEight.Bank

namespace ChipEight

/-!
# Registers — sixteen bytes named by nibbles

Instructions that report a flag put it into the last register, as zero or one.

* `Registers` — the bytes;
* `Registers.report` — a flag put into the last of them.
-/

/-- The general registers. -/
abbrev Registers := Bank UInt8

namespace Registers

/-- The number of registers. -/
abbrev size : Nat := 16

/-- The register that instructions report a flag in. -/
abbrev flag : Nibble := Fin.last 15

/-- The register that an offset jump reads. -/
abbrev offset : Nibble := ⟨0, by decide⟩

/-- The registers of a new machine. -/
def zero : Registers :=
  Bank.fill 0

/-- The registers with a flag reported. -/
def report (r : Registers) (b : Bool) : Registers :=
  r.put flag b.toUInt8

@[simp] theorem get_report_flag {r : Registers} {b : Bool} : (r.report b).get flag = b.toUInt8 :=
  Bank.get_put_self

theorem get_report_of_ne {r : Registers} {b : Bool} {j : Nibble} (h : flag ≠ j) :
    (r.report b).get j = r.get j :=
  Bank.get_put_of_ne h

end Registers

end ChipEight
