namespace ChipEight

/-!
# Glyphs — the built-in shapes of the sixteen digits

Each glyph is five bytes, one for each row of the picture, with the leftmost pixel in the top bit.
The glyphs stand one after the other, the zero first.

* `Glyph.height` — bytes of one glyph;
* `Glyph.start` — the address of the first;
* `Glyph.table` — the bytes of all of them;
* `Glyph.address` — where the glyph of a digit begins.
-/

namespace Glyph

/-- Bytes of one glyph. -/
abbrev height : Nat := 5

/-- The address of the glyph of zero. -/
abbrev start : Nat := 0

/-- The bytes of all glyphs, a line for each digit. -/
def table : Vector UInt8 80 := #v[
  0xF0, 0x90, 0x90, 0x90, 0xF0,
  0x20, 0x60, 0x20, 0x20, 0x70,
  0xF0, 0x10, 0xF0, 0x80, 0xF0,
  0xF0, 0x10, 0xF0, 0x10, 0xF0,
  0x90, 0x90, 0xF0, 0x10, 0x10,
  0xF0, 0x80, 0xF0, 0x10, 0xF0,
  0xF0, 0x80, 0xF0, 0x90, 0xF0,
  0xF0, 0x10, 0x20, 0x40, 0x40,
  0xF0, 0x90, 0xF0, 0x90, 0xF0,
  0xF0, 0x90, 0xF0, 0x10, 0xF0,
  0xF0, 0x90, 0xF0, 0x90, 0x90,
  0xE0, 0x90, 0xE0, 0x90, 0xE0,
  0xF0, 0x80, 0x80, 0x80, 0xF0,
  0xE0, 0x90, 0x90, 0x90, 0xE0,
  0xF0, 0x80, 0xF0, 0x80, 0xF0,
  0xF0, 0x80, 0xF0, 0x80, 0x80]

/-- The address after the last glyph. -/
abbrev stop : Nat := start + 80

/-- Where the glyph of a digit begins; a byte above fifteen points past the glyphs. -/
def address (digit : UInt8) : UInt16 :=
  UInt16.ofNat (start + digit.toNat * height)

@[simp] theorem toNat_address (digit : UInt8) : (address digit).toNat = digit.toNat * 5 := by
  have := digit.toNat_lt
  simp only [address, start, height, UInt16.toNat_ofNat']
  omega

end Glyph

end ChipEight
