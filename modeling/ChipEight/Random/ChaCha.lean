import ChipEight.Random.Key

namespace ChipEight.Random.ChaCha

/-!
# ChaCha — sixteen words for a key and a counter

The stream cipher with twelve rounds, used for its key stream: a start block is scrambled, and the
result is added to the start block. Rounds alternate between the columns and the diagonals of the
block, read as four rows of four words.

* `Block` — sixteen words;
* `quarterRound`, `doubleRound`, `doubleRounds` — the scrambling;
* `start` — the start block;
* `block` — the words for a key and a counter.
-/

/-- Sixteen words, read as four rows of four. -/
abbrev Block := Vector UInt32 16

/-- Scrambles the four words at the places given. -/
def quarterRound (s : Block) (a b c d : Fin 16) : Block :=
  let s := s.set a (s[a] + s[b])
  let s := s.set d (rotateLeft (s[d] ^^^ s[a]) 16)
  let s := s.set c (s[c] + s[d])
  let s := s.set b (rotateLeft (s[b] ^^^ s[c]) 12)
  let s := s.set a (s[a] + s[b])
  let s := s.set d (rotateLeft (s[d] ^^^ s[a]) 8)
  let s := s.set c (s[c] + s[d])
  s.set b (rotateLeft (s[b] ^^^ s[c]) 7)

/-- Two rounds. -/
def doubleRound (s : Block) : Block :=
  -- the four columns
  let s := quarterRound s 0 4 8 12
  let s := quarterRound s 1 5 9 13
  let s := quarterRound s 2 6 10 14
  let s := quarterRound s 3 7 11 15
  -- the four diagonals
  let s := quarterRound s 0 5 10 15
  let s := quarterRound s 1 6 11 12
  let s := quarterRound s 2 7 8 13
  quarterRound s 3 4 9 14

/-- `2 * n` rounds. -/
def doubleRounds : Nat → Block → Block
  | 0, s => s
  | n + 1, s => doubleRounds n (doubleRound s)

/-- The start block: four constants, the key, the counter with its low word first, and two zeros. -/
def start (key : Key) (counter : UInt64) : Block :=
  #v[0x61707865, 0x3320646e, 0x79622d32, 0x6b206574,
     key[0], key[1], key[2], key[3],
     key[4], key[5], key[6], key[7],
     counter.toUInt32, (counter >>> 32).toUInt32, 0, 0]

/-- The words for a key and a counter. -/
def block (key : Key) (counter : UInt64) : Block :=
  Vector.zipWith (· + ·) (doubleRounds 6 (start key counter)) (start key counter)

end ChipEight.Random.ChaCha
