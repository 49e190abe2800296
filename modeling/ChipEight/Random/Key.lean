namespace ChipEight.Random

/-!
# Keys — 256 bits, as they are or from a seed of 64

A seed starts a sequence of states, each a linear function of the one before. Every state stands for
one word, and the key is made of the words of the eight states that follow the seed.

* `rotateLeft`, `rotateRight` — the rotations of a word;
* `Key`, `keyOfBytes` — keys, and the key that bytes make up;
* `nextState`, `stateAfter` — the sequence of states;
* `stateWord` — the word of a state;
* `keyOfSeed` — the key of a seed.
-/

/-- A word with its top `n` bits moved to the bottom. -/
def rotateLeft (w n : UInt32) : UInt32 :=
  (w <<< n) ||| (w >>> (32 - n))

/-- A word with its low `n` bits moved to the top. -/
def rotateRight (w n : UInt32) : UInt32 :=
  (w >>> n) ||| (w <<< (32 - n))

/-- Eight words. -/
abbrev Key := Vector UInt32 8

/-- The key that 32 bytes make up, four to a word, the lowest first. -/
def keyOfBytes (bytes : ByteArray) : Key :=
  let byte (k : Nat) : UInt32 := (bytes.data.getD k 0).toUInt32
  Vector.ofFn fun i =>
    byte (4 * i.val) ||| (byte (4 * i.val + 1) <<< 8) ||| (byte (4 * i.val + 2) <<< 16)
      ||| (byte (4 * i.val + 3) <<< 24)

/-- The state after a state. -/
def nextState (s : UInt64) : UInt64 :=
  s * 6364136223846793005 + 11634580027462260723

/-- The state `n` places after a seed. -/
def stateAfter (seed : UInt64) : Nat → UInt64
  | 0 => seed
  | n + 1 => nextState (stateAfter seed n)

/-- The word of a state: its upper bits, mixed and rotated by the number in the top five. -/
def stateWord (s : UInt64) : UInt32 :=
  rotateRight (((s >>> 18) ^^^ s) >>> 27).toUInt32 (s >>> 59).toUInt32

/-- The key of a seed. -/
def keyOfSeed (seed : UInt64) : Key :=
  Vector.ofFn fun i => stateWord (stateAfter seed (i.val + 1))

end ChipEight.Random
