import ChipEight.Random.Stream

namespace ChipEight.Random

/-!
# Generators — the words of a stream, made a block at a time

A generator keeps a block of sixteen words and gives them out in order. Asked for a word when all of
them are given out, it makes the block of its counter and moves the counter on. What it gives out is
the stream of its seed, across the ends of blocks as within them.

* `Generator` — a key, a counter, and the block that words are taken from;
* `Generator.next` — a word, and the generator after it;
* `Generator.StandsAt` — a generator that gives out the rest of a stream;
* `Generator.next_of_standsAt`, `Generator.standsAt_after` — one word and any number of words;
* `Generator.next_after` — the word after so many others.
-/

/-- A source of words that makes sixteen of them at a time. -/
structure Generator where
  /-- What fixes every word. -/
  key : Key
  /-- The counter of the block that is made next. -/
  counter : UInt64
  /-- The block that words are taken from. -/
  block : ChaCha.Block
  /-- How many words of the block are given out. -/
  given : Nat
deriving DecidableEq, Repr

namespace Generator

/-- The generator of a seed, before its first block. -/
def ofSeed (seed : UInt64) : Generator where
  key := keyOfSeed seed
  counter := 0
  block := Vector.replicate 16 0
  given := 16

/-- The next word, and the generator after it. -/
def next (g : Generator) : UInt32 × Generator :=
  if h : g.given < 16 then
    (g.block.get ⟨g.given, h⟩, { g with given := g.given + 1 })
  else
    let block := ChaCha.block g.key g.counter
    (block.get ⟨0, Nat.zero_lt_succ 15⟩,
      { g with counter := g.counter + 1, block := block, given := 1 })

/-- The generator of a seed after so many words. -/
def after (seed : UInt64) : Nat → Generator
  | 0 => ofSeed seed
  | n + 1 => (after seed n).next.2

/-- A generator that has made `made` blocks and given out the words of a stream so far: all words of
the blocks before the last one, and some of the last one. -/
structure StandsAt (g : Generator) (s : Stream) (made : Nat) : Prop where
  key_eq : g.key = s.key
  counter_eq : g.counter = UInt64.ofNat made
  given_le : g.given ≤ 16
  drawn_eq : s.drawn + 16 = 16 * made + g.given
  block_eq : g.given < 16 → g.block = ChaCha.block g.key (UInt64.ofNat (made - 1))

variable {g : Generator} {s : Stream} {made : Nat}

theorem standsAt_ofSeed (seed : UInt64) : (ofSeed seed).StandsAt (.ofSeed seed) 0 where
  key_eq := rfl
  counter_eq := rfl
  given_le := Nat.le_refl 16
  drawn_eq := rfl
  block_eq h := absurd h (Nat.lt_irrefl 16)

/-- A word of a block, at the place in the stream that the block and its place in the block give. -/
theorem keyWord_eq {key : Key} {j k : Nat} (i : Fin 16) (h : j = 16 * k + i.val) :
    keyWord key j = (ChaCha.block key (UInt64.ofNat k)).get i := by
  have hq : j / 16 = k := by omega
  have hr : j % 16 = i.val := by omega
  simp only [keyWord, hq, hr]
  rfl

/-- The next word of a generator is the next word of the stream that it stands at, and the two go on
together, with another block made if none was left. -/
theorem next_of_standsAt (h : g.StandsAt s made) :
    g.next.1 = keyWord s.key s.drawn ∧ ∃ made', g.next.2.StandsAt s.next.2 made' := by
  obtain ⟨hkey, hcounter, hle, hdrawn, hblock⟩ := h
  by_cases hg : g.given < 16
  · -- a word of the block at hand
    rw [next, dif_pos hg]
    refine ⟨?_, made, hkey, hcounter, hg, ?_, fun _ => hblock hg⟩
    · rw [keyWord_eq ⟨g.given, hg⟩ (k := made - 1) (by dsimp only; omega), hblock hg, hkey]
    · dsimp only [Stream.next_snd]
      omega
  · -- the first word of a new block
    have hfull : g.given = 16 := by omega
    rw [next, dif_neg hg, hcounter]
    refine ⟨?_, made + 1, hkey, (UInt64.ofNat_add made 1).symm, Nat.le_add_left 1 15, ?_,
      fun _ => rfl⟩
    · rw [keyWord_eq ⟨0, Nat.zero_lt_succ 15⟩ (k := made) (by dsimp only; omega), ← hkey]
    · dsimp only [Stream.next_snd]
      omega

/-- After `n` words the generator of a seed stands at place `n` of the stream of the seed. -/
theorem standsAt_after (seed : UInt64) (n : Nat) :
    ∃ made, (after seed n).StandsAt ⟨keyOfSeed seed, n⟩ made := by
  induction n with
  | zero => exact ⟨0, standsAt_ofSeed seed⟩
  | succ n ih =>
    obtain ⟨made, h⟩ := ih
    exact (next_of_standsAt h).2

/-- The word that a generator gives out after `n` others is the word at place `n` of the stream. -/
theorem next_after (seed : UInt64) (n : Nat) : (after seed n).next.1 = word seed n := by
  obtain ⟨made, h⟩ := standsAt_after seed n
  exact (next_of_standsAt h).1

end Generator

end ChipEight.Random
