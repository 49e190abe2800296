import ChipEight.Keypad

namespace ChipEight

/-!
# Keys by their history — a key is down since the last move that put it down

A key is down exactly when some move put it down and none after that let it go, where one key-up of
any character lets every key go and a key-down puts down the one key whose character it is, capital
letters counting as small ones. What the two ways of looking at the keys tell, by a byte and from
the lowest key on, follows from that.

* `Keypad.smallCode`, `Keypad.slot?_eq_some_iff` — the key of a character;
* `Keypad.Move.sets`, `Keypad.Move.clears` — what a move does to one key;
* `Keypad.Held` — a key put down and not let go since;
* `Keypad.keys_move`, `Keypad.keys_moves` — the keys after one move, and after any number;
* `Keypad.isDown_eq_true_iff`, `Keypad.firstDown_eq_some_iff` — the two ways of looking at them;
* `Keypad.held_keys_of_moves` — all of it, for a new pad.
-/

namespace Keypad

variable {p : Keypad} {k : Nibble} {b : UInt8} {c : Char} {e : KeyEvent} {m : Move}
  {moves : List Move}

/-! ### The first of sixteen -/

theorem find?_finRange_eq_some_iff {q : Nibble → Bool} :
    (List.finRange 16).find? q = some k
      ↔ q k = true ∧ ∀ j : Nibble, j.val < k.val → q j = false := by
  rw [List.find?_eq_some_iff_getElem]
  refine and_congr_right fun _ => ?_
  constructor
  · rintro ⟨i, hi, hik, hbefore⟩ j hj
    have hval : k.val = i := by simp [← hik]
    have hlt : j.val < i := by omega
    simpa using hbefore j.val hlt
  · intro hbefore
    refine ⟨k.val, by simp, by simp, fun j hj => ?_⟩
    have hlt : j < 16 := by omega
    simpa using hbefore ⟨j, hlt⟩ hj

theorem find?_finRange_eq_none_iff {q : Nibble → Bool} :
    (List.finRange 16).find? q = none ↔ ∀ k, q k = false := by
  simp [List.find?_eq_none]

/-! ### The key of a character -/

/-- The code of a character, where a capital letter from `A` to `Z` has that of its small letter. -/
def smallCode (c : Char) : Nat :=
  if 65 ≤ c.toNat ∧ c.toNat ≤ 90 then c.toNat + 32 else c.toNat

theorem toNat_toLower (c : Char) : c.toLower.toNat = smallCode c := by
  have hiff : (c.val ≥ 'A'.val ∧ c.val ≤ 'Z'.val) ↔ (65 ≤ c.toNat ∧ c.toNat ≤ 90) := Iff.rfl
  unfold Char.toLower smallCode
  split
  case isTrue h =>
    have h' := hiff.1 h
    rw [if_pos h']
    show (c.val + 32).toNat = c.val.toNat + 32
    have hval : c.val.toNat ≤ 90 := h'.2
    rw [UInt32.toNat_add]
    simp only [UInt32.reduceToNat]
    omega
  case isFalse h => rw [if_neg fun h' => h (hiff.2 h')]

/-- No two keys have one character. -/
theorem layout_injective {j k : Nibble} (h : layout.get j = layout.get k) : j = k := by
  revert j k
  decide

/-- The key of a character is the one whose character it is, capitals counting as small letters. -/
theorem slot?_eq_some_iff : slot? c = some k ↔ smallCode c = (layout.get k).toNat := by
  rw [← toNat_toLower, slot?, find?_finRange_eq_some_iff]
  simp only [beq_iff_eq, beq_eq_false_iff_ne]
  constructor
  · rintro ⟨hk, -⟩
    rw [hk]
  · intro h
    have hk : layout.get k = c.toLower := Char.toNat_inj.1 h.symm
    refine ⟨hk, fun j hj hjc => ?_⟩
    rw [layout_injective (hjc.trans hk.symm)] at hj
    exact Nat.lt_irrefl _ hj

theorem slot?_eq_none_iff : slot? c = none ↔ ∀ k, smallCode c ≠ (layout.get k).toNat := by
  simp only [Option.eq_none_iff_forall_ne_some, ne_eq, slot?_eq_some_iff]

-- Only the capitals from `A` to `Z` count as small letters.
example : slot? 'S' = some 9 ∧ slot? 'ſ' = none := by decide

/-! ### One move -/

/-- Whether a move puts a key down. -/
def Move.sets (k : Nibble) : Move → Bool
  | .press j => decide (j = k)
  | .set j down => decide (j = k) && down
  | .event (.down c) => decide (smallCode c = (layout.get k).toNat)
  | .release _ | .releaseAll | .event (.up _) => false

/-- Whether a move lets a key go. -/
def Move.clears (k : Nibble) : Move → Bool
  | .release j => decide (j = k)
  | .set j down => decide (j = k) && !down
  | .releaseAll | .event (.up _) => true
  | .press _ | .event (.down _) => false

/-- A key is down after a move that puts it down, and after any other if it was down before and the
move does not let it go. -/
theorem keys_move (p : Keypad) (m : Move) (k : Nibble) :
    (p.move m).keys.get k = (m.sets k || p.keys.get k && !m.clears k) := by
  cases m with
  | press j => by_cases h : j = k <;> simp [move, press, Move.sets, Move.clears, Bank.get_put, h]
  | release j =>
    by_cases h : j = k <;> simp [move, release, Move.sets, Move.clears, Bank.get_put, h]
  | set j down =>
    by_cases h : j = k <;> cases down <;> simp [move, Move.sets, Move.clears, Bank.get_put, h]
  | releaseAll => simp [move, Move.sets, Move.clears]
  | event e =>
    cases e with
    | up c => simp [move, handle, Move.sets, Move.clears]
    | down c =>
      simp only [move, handle, Move.sets, Move.clears]
      cases hs : slot? c with
      | none => simp [slot?_eq_none_iff.1 hs k]
      | some j =>
        have hj := slot?_eq_some_iff.1 hs
        by_cases h : j = k
        · simp [press, h, hj]
        · have hne : (layout.get j).toNat ≠ (layout.get k).toNat := fun hc =>
            h (layout_injective (Char.toNat_inj.1 hc))
          simp [press, Bank.get_put, h, hj, hne]

/-! ### Any number of moves -/

/-- Whether one of the moves puts a key down and no later one lets it go. -/
def Held (k : Nibble) (moves : List Move) : Prop :=
  ∃ pre m post, moves = pre ++ m :: post ∧ m.sets k = true ∧ ∀ m' ∈ post, m'.clears k = false

theorem not_held_nil : ¬ Held k [] := by
  rintro ⟨pre, m, post, h, -⟩
  simp at h

theorem held_cons :
    Held k (m :: moves)
      ↔ (m.sets k = true ∧ ∀ m' ∈ moves, m'.clears k = false) ∨ Held k moves := by
  constructor
  · rintro ⟨pre, m', post, hsplit, hset, hpost⟩
    rcases List.cons_eq_append_iff.1 hsplit with ⟨rfl, hcons⟩ | ⟨pre', rfl, hmoves⟩
    · obtain ⟨rfl, rfl⟩ := List.cons.inj hcons
      exact .inl ⟨hset, hpost⟩
    · exact .inr ⟨pre', m', post, hmoves, hset, hpost⟩
  · rintro (⟨hset, hpost⟩ | ⟨pre, m', post, rfl, hset, hpost⟩)
    · exact ⟨[], m, moves, rfl, hset, hpost⟩
    · exact ⟨m :: pre, m', post, rfl, hset, hpost⟩

/-- After moves a key is down if one of them holds it, or if it was down before them and none of
them let it go. -/
theorem keys_moves (p : Keypad) (moves : List Move) (k : Nibble) :
    (moves.foldl move p).keys.get k = true
      ↔ Held k moves ∨ (p.keys.get k = true ∧ ∀ m ∈ moves, m.clears k = false) := by
  induction moves generalizing p with
  | nil => simp [not_held_nil]
  | cons m moves ih =>
    rw [List.foldl_cons, ih, keys_move, held_cons, List.forall_mem_cons]
    simp only [Bool.or_eq_true, Bool.and_eq_true, Bool.not_eq_true']
    grind

/-! ### Looking at the keys -/

/-- A byte up to fifteen names the key of its value, and no other byte names a key. -/
theorem isDown_eq_true_iff :
    p.isDown b = true ↔ ∃ k : Nibble, k.val = b.toNat ∧ p.keys.get k = true := by
  unfold isDown Nibble.ofByte?
  by_cases h : b.toNat < 16
  · rw [dif_pos h]
    constructor
    · intro hk
      exact ⟨⟨b.toNat, h⟩, rfl, hk⟩
    · rintro ⟨k, hk, hdown⟩
      rwa [← show k = ⟨b.toNat, h⟩ from Fin.ext hk]
  · rw [dif_neg h]
    refine iff_of_false Bool.false_ne_true ?_
    rintro ⟨k, hk, -⟩
    omega

/-- The first key that is down is the lowest one, by whatever byte it is asked for. -/
theorem firstDown_eq_some_iff :
    p.firstDown = some k
      ↔ p.isDown (Nibble.toByte k) = true ∧ ∀ b : UInt8, b.toNat < k.val → p.isDown b = false := by
  rw [firstDown, find?_finRange_eq_some_iff, isDown_toByte]
  refine and_congr_right fun _ => ?_
  constructor
  · intro hbefore b hb
    rw [← Bool.not_eq_true, isDown_eq_true_iff]
    rintro ⟨j, hj, hdown⟩
    have hup := hbefore j (by omega)
    rw [hdown] at hup
    contradiction
  · intro hbefore j hj
    have hup := hbefore (Nibble.toByte j) (by simpa using hj)
    rwa [isDown_toByte] at hup

theorem firstDown_eq_none_iff : p.firstDown = none ↔ ∀ b : UInt8, p.isDown b = false := by
  rw [firstDown, find?_finRange_eq_none_iff]
  constructor
  · intro hup b
    rw [← Bool.not_eq_true, isDown_eq_true_iff]
    rintro ⟨k, -, hdown⟩
    rw [hup k] at hdown
    contradiction
  · intro hup k
    have hk := hup (Nibble.toByte k)
    rwa [isDown_toByte] at hk

/-- A report of the keyboard leaves the keys alone if it is a key-down of a character that is no
key's, and only then. -/
theorem handle_eq_false_iff :
    (p.handle e).1 = false
      ↔ ∃ c, e = .down c ∧ ∀ k, smallCode c ≠ (layout.get k).toNat := by
  cases e with
  | up c => simp [handle]
  | down c =>
    simp only [KeyEvent.down.injEq, exists_eq_left', ← slot?_eq_none_iff, handle]
    cases slot? c <;> simp

theorem handle_of_eq_false (h : (p.handle e).1 = false) : (p.handle e).2 = p := by
  obtain ⟨c, rfl, hc⟩ := handle_eq_false_iff.1 h
  rw [handle, slot?_eq_none_iff.2 hc]

/-- **Keys by their history.** Let any moves be made on a new pad. A byte reads as down exactly when
it is the number of a key that one of the moves put down and no later one let go; a byte above
fifteen is the number of no key. The first key that is down is the lowest one that reads as down,
and there is none exactly when no byte reads as down. And whatever the pad, a report of the keyboard
is answered with `false` for the key-down of a character that is no key's and for nothing else, and
the pad is then as it was. -/
theorem held_keys_of_moves (moves : List Move) :
    (∀ b : UInt8, (moves.foldl move released).isDown b = true
        ↔ ∃ k : Nibble, k.val = b.toNat ∧ Held k moves)
    ∧ (∀ k, (moves.foldl move released).firstDown = some k
        ↔ (moves.foldl move released).isDown (Nibble.toByte k) = true
          ∧ ∀ b : UInt8, b.toNat < k.val → (moves.foldl move released).isDown b = false)
    ∧ ((moves.foldl move released).firstDown = none
        ↔ ∀ b : UInt8, (moves.foldl move released).isDown b = false)
    ∧ ∀ (p : Keypad) (e : KeyEvent),
        ((p.handle e).1 = false ↔ ∃ c, e = .down c ∧ ∀ k, smallCode c ≠ (layout.get k).toNat)
        ∧ ((p.handle e).1 = false → (p.handle e).2 = p) := by
  refine ⟨fun b => ?_, fun k => firstDown_eq_some_iff, firstDown_eq_none_iff,
    fun p e => ⟨handle_eq_false_iff, handle_of_eq_false⟩⟩
  rw [isDown_eq_true_iff]
  refine exists_congr fun k => and_congr_right fun _ => ?_
  -- on a new pad no key was down before the moves
  have hup : released.keys.get k = false := Bank.get_fill
  rw [keys_moves, hup]
  simp

end Keypad

end ChipEight
