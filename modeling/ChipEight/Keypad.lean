import ChipEight.Bank

namespace ChipEight

/-!
# Keypad — sixteen keys, each down or up

The host moves the keys; the machine only looks at them. A keyboard stands in for the pad: each of
sixteen characters is one key, in either case, and letting any character go lets all keys go.

* `Keypad.set`, `Keypad.releaseAll` — moving the keys;
* `Keypad.isDown` — the key that a byte names; a byte above fifteen names none and reads as up;
* `Keypad.firstDown` — the lowest key that is down;
* `Keypad.layout`, `Keypad.slot?` — the characters, and the key of a character;
* `KeyEvent`, `Keypad.handle` — what the keyboard reports, and its effect;
* `Keypad.Move`, `Keypad.move` — everything a host can do to the keys, and its effect.
-/

/-- The state of the sixteen keys. -/
structure Keypad where
  /-- Whether each key is down. -/
  keys : Bank Bool
deriving DecidableEq, Repr

/-- What a keyboard reports. -/
inductive KeyEvent where
  /-- A character went down. -/
  | down (c : Char)
  /-- A character was let go. -/
  | up (c : Char)
deriving DecidableEq, Repr

namespace Keypad

/-- The number of keys. -/
abbrev size : Nat := 16

/-- The pad with every key up. -/
def released : Keypad where
  keys := .fill false

/-- The pad with one key moved. -/
def set (p : Keypad) (k : Nibble) (down : Bool) : Keypad where
  keys := p.keys.put k down

/-- The pad with one key down. -/
def press (p : Keypad) (k : Nibble) : Keypad :=
  p.set k true

/-- The pad with one key up. -/
def release (p : Keypad) (k : Nibble) : Keypad :=
  p.set k false

/-- The pad after every key was let go. -/
def releaseAll (_ : Keypad) : Keypad :=
  released

/-- Whether the key named by a byte is down; a byte above fifteen names no key. -/
def isDown (p : Keypad) (b : UInt8) : Bool :=
  match Nibble.ofByte? b with
  | some k => p.keys.get k
  | none => false

/-- The lowest key that is down. -/
def firstDown (p : Keypad) : Option Nibble :=
  (List.finRange 16).find? fun k => p.keys.get k

/-! ### The keyboard -/

/-- The characters of the keys, key zero first. -/
def layout : Bank Char :=
  #v['1', '2', '3', '4',
     'q', 'w', 'e', 'r',
     'a', 's', 'd', 'f',
     'z', 'x', 'c', 'v']

/-- The key of a character, upper and lower case alike for the letters from `A` to `Z`. -/
def slot? (c : Char) : Option Nibble :=
  (List.finRange 16).find? fun k => layout.get k == c.toLower

/-- The pad after a report of the keyboard, and whether the report touched the pad. -/
def handle (p : Keypad) : KeyEvent → Bool × Keypad
  | .down c =>
    match slot? c with
    | some k => (true, p.press k)
    | none => (false, p)
  | .up _ => (true, p.releaseAll)

/-- What a host does to the keys. -/
inductive Move where
  /-- Puts a key down. -/
  | press (k : Nibble)
  /-- Lets a key go. -/
  | release (k : Nibble)
  /-- Puts a key down or lets it go. -/
  | set (k : Nibble) (down : Bool)
  /-- Lets every key go. -/
  | releaseAll
  /-- Passes on a report of the keyboard. -/
  | event (e : KeyEvent)
deriving DecidableEq, Repr

/-- The pad after a move. -/
def move (p : Keypad) : Move → Keypad
  | .press k => p.press k
  | .release k => p.release k
  | .set k down => p.set k down
  | .releaseAll => p.releaseAll
  | .event e => (p.handle e).2

/-! ### Keys after a move -/

variable {p : Keypad} {k j : Nibble} {b : Bool}

@[simp] theorem keys_set : (p.set k b).keys = p.keys.put k b := rfl

@[simp] theorem keys_releaseAll : p.releaseAll.keys.get j = false :=
  Bank.get_fill

@[simp] theorem isDown_toByte : p.isDown (Nibble.toByte k) = p.keys.get k := by
  simp [isDown]

end Keypad

end ChipEight
