import ChipEight.Proofs.Machine.Footprint

namespace ChipEight

/-!
# Blocks — bytes at consecutive addresses, around the top of the memory

An instruction that goes through several bytes goes through a block: the places that follow an
address, modulo the number of bytes, also where the address wraps on its way. No two places of a
block are the same as long as the block is no longer than the memory. So each byte that is written
to a block is there afterwards, and nothing else has changed.

* `Memory.place`, `Memory.place_inj` — the places of a block;
* `Memory.read_add` — the byte in one of them;
* `Memory.word_eq_of_get` — a word whose two places are left alone;
* `Memory.get_writeList_place`, `Memory.get_writeList_of_ne` — the bytes after a block was written,
  in the block and beside it.
-/

namespace Memory

variable {m : Memory} {a : UInt16} {bs : List UInt8} {i : Fin 4096} {j k : Nat}

/-- The place of byte `k` in the block that begins at an address. -/
def place (a : UInt16) (k : Nat) : Fin 4096 :=
  ⟨(a.toNat + k) % 4096, Nat.mod_lt _ (by decide)⟩

/-- The number of bytes divides the number of addresses, so that it makes no difference where the
address wraps. -/
theorem slot_add (a : UInt16) (k : Nat) : slot (a + UInt16.ofNat k) = place a k := by
  apply Fin.ext
  simp only [val_slot, place, UInt16.toNat_add, UInt16.toNat_ofNat']
  omega

theorem place_inj (hj : j < 4096) (hk : k < 4096) : place a j = place a k ↔ j = k := by
  simp only [place, Fin.mk.injEq]
  omega

theorem read_add (m : Memory) (a : UInt16) (k : Nat) :
    m.read (a + UInt16.ofNat k) = m.get (place a k) :=
  congrArg m.get (slot_add a k)

/-- A word is what it was if its two places are. -/
theorem word_eq_of_get {m' : Memory} (hhigh : m'.get (slot a) = m.get (slot a))
    (hlow : m'.get (slot (a + 1)) = m.get (slot (a + 1))) : m'.word a = m.word a := by
  have hread : m'.read a = m.read a := hhigh
  have hnext : m'.read (a + 1) = m.read (a + 1) := hlow
  rw [word, word, hread, hnext]

theorem slot_ofNat (i : Fin 4096) : slot (UInt16.ofNat i.val) = i := by
  apply Fin.ext
  simp only [val_slot, UInt16.toNat_ofNat']
  omega

/-- A byte beside a block that is written stays as it is. -/
theorem get_writeList_of_ne (h : ∀ k < bs.length, i ≠ place a k) :
    (m.writeList a bs).get i = m.get i := by
  have hread : (m.writeList a bs).read (UInt16.ofNat i.val) = m.read (UInt16.ofNat i.val) := by
    apply read_writeList_of_ne
    intro k hk
    rw [slot_add, slot_ofNat]
    exact (h k hk).symm
  have hget : ∀ m : Memory, m.read (UInt16.ofNat i.val) = m.get i := fun m =>
    congrArg m.get (slot_ofNat i)
  rwa [hget, hget] at hread

/-- The bytes of a block that is written are those that were written, each in its place. -/
theorem get_writeList_place (hlen : bs.length ≤ 4096) (hk : k < bs.length) :
    (m.writeList a bs).get (place a k) = bs[k] := by
  induction bs generalizing m a k with
  | nil => cases hk
  | cons b bs ih =>
    rw [List.length_cons] at hlen hk
    have hnext : ∀ j, place (a + 1) j = place a (j + 1) := by
      intro j
      rw [← slot_add, ← slot_add, add_one_add_ofNat]
    rw [writeList_cons]
    cases k with
    | zero =>
      -- the rest of the block does not come round to its first place
      have hrest : ∀ j < bs.length, place a 0 ≠ place (a + 1) j := by
        intro j hj
        rw [hnext, Ne, place_inj (by omega) (by omega)]
        omega
      have hfirst : a + UInt16.ofNat 0 = a := UInt16.add_zero a
      rw [get_writeList_of_ne hrest, ← read_add, hfirst, read_write_self]
      rfl
    | succ k =>
      rw [← hnext, ih (by omega) (by omega)]
      rfl

end Memory

end ChipEight
