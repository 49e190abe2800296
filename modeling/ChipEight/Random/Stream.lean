import ChipEight.Random.ChaCha

namespace ChipEight.Random

/-!
# Random streams — the words of a key, one after the other

* `keyWord`, `word` — the word at a place of the stream of a key, and of a seed;
* `Stream` — a key and how many words have been drawn;
* `Stream.next` — the low byte of the next word, and the stream after it.
-/

/-- The word at place `j` of the stream of a key: sixteen to a block, blocks counted from zero. -/
def keyWord (key : Key) (j : Nat) : UInt32 :=
  (ChaCha.block key (UInt64.ofNat (j / 16)))[j % 16]

/-- The word at place `j` of the stream of a seed. -/
def word (seed : UInt64) (j : Nat) : UInt32 :=
  keyWord (keyOfSeed seed) j

/-- A place in the stream of a key. -/
structure Stream where
  /-- The key that fixes every word. -/
  key : Key
  /-- How many words have been drawn. -/
  drawn : Nat
deriving DecidableEq, Repr

namespace Stream

/-- The stream of a key with nothing drawn. -/
def ofKey (key : Key) : Stream where
  key := key
  drawn := 0

/-- The stream of a seed with nothing drawn. -/
def ofSeed (seed : UInt64) : Stream :=
  ofKey (keyOfSeed seed)

/-- The low byte of the next word, and the stream with that word drawn. -/
def next (s : Stream) : UInt8 × Stream :=
  ((keyWord s.key s.drawn).toUInt8, { s with drawn := s.drawn + 1 })

@[simp] theorem next_fst (s : Stream) : s.next.1 = (keyWord s.key s.drawn).toUInt8 := rfl

@[simp] theorem next_snd (s : Stream) : s.next.2 = ⟨s.key, s.drawn + 1⟩ := rfl

end Stream

end ChipEight.Random
