import ChipEight.Glyph

namespace ChipEight

/-!
# Memory — 4096 bytes, addressed modulo their number

An address is a word; only its low twelve bits count, so that every address names a byte and a run
of addresses goes on at the bottom when it leaves the top.

* `Memory.slot` — the byte that an address names;
* `Memory.read`, `Memory.write` — one byte;
* `Memory.readList`, `Memory.writeList` — the bytes at consecutive addresses;
* `Memory.word` — the big-endian word at an address;
* `Memory.initial` — the glyphs at the bottom and zeros;
* `Memory.overlay` — a program image laid over the bytes from `Memory.programStart` on.
-/

/-- The bytes of the machine. -/
abbrev Memory := Vector UInt8 4096

namespace Memory

/-- The number of bytes. -/
abbrev size : Nat := 4096

/-- The address of the first byte of a program. -/
abbrev programStart : Nat := 0x200

/-- The length of the longest program that fits. -/
abbrev maxProgramSize : Nat := size - programStart

/-- The byte that an address names. -/
def slot (a : UInt16) : Fin 4096 :=
  ⟨a.toNat % 4096, by omega⟩

/-- The byte at an address. -/
def read (m : Memory) (a : UInt16) : UInt8 :=
  m[slot a]

/-- The memory with another byte at an address. -/
def write (m : Memory) (a : UInt16) (b : UInt8) : Memory :=
  m.set (slot a) b

/-- The `n` bytes from an address on. -/
def readList (m : Memory) (a : UInt16) (n : Nat) : List UInt8 :=
  (List.range n).map fun k => m.read (a + UInt16.ofNat k)

/-- The memory with the bytes of a list written from an address on. -/
def writeList (m : Memory) (a : UInt16) : List UInt8 → Memory
  | [] => m
  | b :: bs => (m.write a b).writeList (a + 1) bs

/-- The word at an address, high byte first. -/
def word (m : Memory) (a : UInt16) : UInt16 :=
  UInt16.ofNat ((m.read a).toNat * 256 + (m.read (a + 1)).toNat)

/-- The memory of a new machine. -/
def initial : Memory :=
  Vector.ofFn fun i => Glyph.table.toList.getD i 0

/-- The memory with a program image laid over it. -/
def overlay (m : Memory) (image : Array UInt8) : Memory :=
  m.mapFinIdx fun i b _ =>
    if programStart ≤ i then image.getD (i - programStart) b else b

/-! ### Reading what was written -/

variable {m : Memory} {a c : UInt16} {b : UInt8}

@[simp] theorem val_slot (a : UInt16) : (slot a).val = a.toNat % 4096 := rfl

/-- Two addresses name the same byte when they agree modulo the number of bytes. -/
theorem slot_eq_iff : slot a = slot c ↔ a.toNat % 4096 = c.toNat % 4096 := by
  simp [slot]

@[simp] theorem read_write_self : (m.write a b).read a = b := by
  simp [read, write]

theorem read_write (h : slot a ≠ slot c) : (m.write a b).read c = m.read c := by
  have h' : ¬ a.toNat % 4096 = c.toNat % 4096 := fun e => h (slot_eq_iff.2 e)
  simp [read, write, h']

@[simp] theorem writeList_nil : m.writeList a [] = m := rfl

@[simp] theorem writeList_cons {bs : List UInt8} :
    m.writeList a (b :: bs) = (m.write a b).writeList (a + 1) bs := rfl

@[simp] theorem length_readList {n : Nat} : (m.readList a n).length = n := by
  simp [readList]

/-- A byte of the overlay is a byte of the image or the byte that was there. -/
theorem getElem_overlay {image : Array UInt8} {i : Nat} (h : i < 4096) :
    (m.overlay image)[i]
      = if programStart ≤ i then image.getD (i - programStart) m[i] else m[i] := by
  simp [overlay]

end Memory

end ChipEight
