import ChipEight.Proofs.Host.Faults
import Mathlib.Data.List.Forall2

namespace ChipEight

/-!
# Loads — images laid one over the other

A load is answered by the size of its image alone. One that is refused does nothing. One that
succeeds lays its image over what was there, so that after any number of loads each byte above the
start of programs is that of the last program that reached its place, and the size is that of the
last program. Nothing else is touched.

* `Host.Answered` — what a load is answered with;
* `programs`, `laidByte`, `laidSize` — the images that are programs, and what they leave in a place
  and as the size;
* `Host.Laid` — what loads leave of a host, with `Host.Laid.program` and `Host.Laid.other` for one
  load more;
* `Host.performAll_loads` — any number of loads;
* `Host.loads_overlay` — all of it, for the hosts that runs reach.
-/

/-! ### Images -/

/-- The images that are programs: those with a byte at least that fit into the memory. -/
def programs (images : List (Array UInt8)) : List (Array UInt8) :=
  images.filter fun image => decide (0 < image.size ∧ image.size ≤ 3584)

/-- The byte that images leave in a place: that of the last program that has one for the place, or
the byte that was there if no program has. -/
def laidByte (images : List (Array UInt8)) (k : Nat) (old : UInt8) : UInt8 :=
  (((programs images).filter fun image => decide (k < image.size)).getLast?.map
    fun image => image.getD k 0).getD old

/-- The size that images leave: that of the last program, or the size there was. -/
def laidSize (images : List (Array UInt8)) (old : Nat) : Nat :=
  ((programs images).getLast?.map Array.size).getD old

variable {image : Array UInt8} {images : List (Array UInt8)}

theorem programs_cons_of_program (h : 0 < image.size ∧ image.size ≤ 3584) :
    programs (image :: images) = image :: programs images :=
  List.filter_cons_of_pos (decide_eq_true h)

theorem programs_cons_of_other (h : ¬ (0 < image.size ∧ image.size ≤ 3584)) :
    programs (image :: images) = programs images :=
  List.filter_cons_of_neg (ne_true_of_eq_false (decide_eq_false h))

/-- What the last element gives, where a first element stands in for the default. -/
theorem getLast?_cons_map_getD {α β : Type} (g : α → β) (a : α) (l : List α) (d : β) :
    ((a :: l).getLast?.map g).getD d = (l.getLast?.map g).getD (g a) := by
  rw [List.getLast?_cons, Option.map_some, Option.getD_some, Option.getD_map]

/-- Images that begin with a program leave what the others leave over that program. -/
theorem laidByte_cons (h : 0 < image.size ∧ image.size ≤ 3584) (k : Nat) (old : UInt8) :
    laidByte (image :: images) k old = laidByte images k (image.getD k old) := by
  rw [laidByte, laidByte, programs_cons_of_program h]
  by_cases hk : k < image.size
  · have hbyte : image.getD k 0 = image.getD k old := by simp [hk]
    rw [List.filter_cons_of_pos (by simpa using hk), getLast?_cons_map_getD, hbyte]
  · have hbyte : image.getD k old = old := by simp [hk]
    rw [List.filter_cons_of_neg (by simpa using hk), hbyte]

theorem laidSize_cons (h : 0 < image.size ∧ image.size ≤ 3584) (old : Nat) :
    laidSize (image :: images) old = laidSize images image.size := by
  rw [laidSize, programs_cons_of_program h, getLast?_cons_map_getD]
  rfl

namespace Host

variable {h h' : Host}

/-! ### One load -/

/-- What a load may be answered with: the refusal of an image without bytes, the refusal of an image
that is too large, with its size and the limit, or that the program is in place. -/
structure Answered (image : Array UInt8) (reply : Reply) : Prop where
  empty : reply = .refused .empty ↔ image.size = 0
  tooLarge : reply = .refused (.tooLarge image.size 3584) ↔ 3584 < image.size
  loaded : reply = .loaded ↔ 0 < image.size ∧ image.size ≤ 3584

/-- The host with a program laid over the memory of its machine, and the load on record. -/
def withProgram (h : Host) (image : Array UInt8) : Host :=
  { h with
    machine := { h.machine with
      memory := h.machine.memory.overlay image
      programSize := image.size }
    journal := h.journal.report (.loaded image.size) }

theorem load_of_program (hi : 0 < image.size ∧ image.size ≤ 3584) :
    h.load image = (.loaded, h.withProgram image) := by
  rw [load, Machine.load_eq_ok_iff.2 ⟨hi, rfl⟩]
  rfl

theorem load_of_other (hi : ¬ (0 < image.size ∧ image.size ≤ 3584)) :
    (h.load image).1 ≠ .loaded ∧ (h.load image).2 = h := by
  rw [load]
  cases hm : h.machine.load image with
  | ok m => exact absurd (Machine.load_eq_ok_iff.1 hm).1 hi
  | error e => exact ⟨Reply.noConfusion, rfl⟩

theorem answered_load (h : Host) (image : Array UInt8) : Answered image (h.load image).1 := by
  by_cases h0 : image.size = 0
  · have hl : h.load image = (.refused .empty, h) := by simp [load, Machine.load, h0]
    rw [hl]
    exact ⟨by simp [h0], by simp [h0], by simp [h0]⟩
  · by_cases hmax : 3584 < image.size
    · have hl : h.load image = (.refused (.tooLarge image.size 3584), h) := by
        rw [load, Machine.load, if_neg h0,
          if_pos (show Memory.maxProgramSize < image.size from hmax)]
        rfl
      rw [hl]
      exact ⟨by simp [h0], by simp [hmax], by simp; omega⟩
    · have hi : 0 < image.size ∧ image.size ≤ 3584 := by omega
      rw [load_of_program hi]
      exact ⟨by simp [h0], by simp; omega, by simp [hi]⟩

/-! ### Any number of loads -/

/-- What loads of images leave of a host. -/
structure Laid (images : List (Array UInt8)) (h h' : Host) : Prop where
  /-- Each byte of the part for programs is that of the last program that reaches its place. -/
  above : ∀ k < 3584, h'.machine.memory.read (UInt16.ofNat (0x200 + k))
    = laidByte images k (h.machine.memory.read (UInt16.ofNat (0x200 + k)))
  /-- The bytes below are as they were. -/
  below : ∀ k < 0x200, h'.machine.memory.read (UInt16.ofNat k)
    = h.machine.memory.read (UInt16.ofNat k)
  /-- The size is that of the last program. -/
  size : h'.machine.programSize = laidSize images h.machine.programSize
  /-- All else is as it was, but for the records of the loads that succeeded. -/
  rest : h' = { h with
    machine := { h.machine with
      memory := h'.machine.memory
      programSize := h'.machine.programSize }
    journal := { h.journal with
      records := h.journal.records
        ++ ((programs images).map fun image => LogRecord.loaded image.size).toArray } }

theorem Laid.nil (h : Host) : Laid [] h h where
  above := fun _ _ => rfl
  below := fun _ _ => rfl
  size := rfl
  rest := by simp [programs]

/-- A load that is refused comes before the others. -/
theorem Laid.other (hl : Laid images h h') (hi : ¬ (0 < image.size ∧ image.size ≤ 3584)) :
    Laid (image :: images) h h' where
  above := by
    intro k hk
    rw [laidByte, programs_cons_of_other hi]
    exact hl.above k hk
  below := hl.below
  size := by
    rw [laidSize, programs_cons_of_other hi]
    exact hl.size
  rest := by
    rw [programs_cons_of_other hi]
    exact hl.rest

/-- A load that succeeds comes before the others, which lay their images over its own. -/
theorem Laid.program (hl : Laid images (h.withProgram image) h')
    (hi : 0 < image.size ∧ image.size ≤ 3584) : Laid (image :: images) h h' where
  above := by
    intro k hk
    rw [laidByte_cons hi, hl.above k hk]
    exact congrArg _ (Machine.read_overlay_place h.machine.memory image hk)
  below := by
    intro k hk
    rw [hl.below k hk]
    show (h.machine.memory.overlay image).read _ = _
    have hslot : (Memory.slot (UInt16.ofNat k)).val = k := by
      simp only [Memory.val_slot, UInt16.toNat_ofNat']
      omega
    rw [Machine.read_overlay, hslot, if_neg (Nat.not_le_of_lt hk)]
  size := by
    rw [laidSize_cons hi]
    exact hl.size
  rest := by
    rw [programs_cons_of_program hi]
    have hrest := hl.rest
    simpa [withProgram, Journal.report] using hrest

/-- Loads never crash; each is answered by its own image, and together they lay their images one
over the other. -/
theorem performAll_loads (h : Host) (images : List (Array UInt8)) :
    ∃ replies h', h.performAll (images.map .load) = .ok (replies, h')
      ∧ List.Forall₂ Answered images replies ∧ Laid images h h' := by
  induction images generalizing h with
  | nil => exact ⟨[], h, rfl, .nil, .nil h⟩
  | cons image images ih =>
    have hperform : h.perform (.load image) = .ok ((h.load image).1, (h.load image).2) := rfl
    obtain ⟨replies, h', hall, hanswers, hlaid⟩ := ih (h.load image).2
    refine ⟨_, h', ?_, .cons (answered_load h image) hanswers, ?_⟩
    · rw [List.map_cons, performAll_of_perform hperform, hall]
      rfl
    · by_cases hi : 0 < image.size ∧ image.size ≤ 3584
      · rw [load_of_program hi] at hlaid
        exact hlaid.program hi
      · rw [(load_of_other hi).2] at hlaid
        exact hlaid.other hi

/-- **Loads lay images over one another.** On a host that a run of a new machine reaches, the
program fits into the memory, so that a running machine has its next word at an address of twelve
bits. A load that does not succeed, wherever it is made, changes nothing and leaves no record. Any
number of loads can be made: each is refused as empty when its image has no bytes, as too large when
it has more than 3584, and succeeds otherwise. After them each byte for programs is that of the last
program that has one for its place, or else the byte that was there, the size is that of the last
program, or else the size there was, and all else is as before but for one record for each load that
succeeded. -/
theorem loads_overlay (hr : h.Reachable) (images : List (Array UInt8)) :
    h.machine.programSize ≤ 3584
    ∧ (h.machine.isRunning = true → h.machine.pc.toNat ≤ 0xFFF)
    ∧ (∀ (g : Host) (image : Array UInt8), (g.load image).1 ≠ .loaded → (g.load image).2 = g)
    ∧ ∃ replies h', h.performAll (images.map .load) = .ok (replies, h')
      ∧ List.Forall₂ Answered images replies ∧ Laid images h h' := by
  have hsize := hr.bounded.programSize_le
  refine ⟨hsize, ?_, ?_, performAll_loads h images⟩
  · intro hrunning
    have hstart : Memory.programStart = 512 := rfl
    simp only [Machine.isRunning, Bool.and_eq_true, decide_eq_true_eq] at hrunning
    omega
  · intro g image hg
    by_cases hi : 0 < image.size ∧ image.size ≤ 3584
    · rw [load_of_program hi] at hg
      exact absurd rfl hg
    · exact (load_of_other hi).2

/-- The tail of the longer program is still there behind the shorter one, and the empty image
between them left no trace. -/
theorem loads_overlay_shorterLast :
    ∃ replies h', (ofSeed 0 10).performAll [.load #[1, 2, 3], .load #[], .load #[9]]
        = .ok (replies, h')
      ∧ replies = [.loaded, .refused .empty, .loaded]
      ∧ h'.machine.memory.read 0x200 = 9 ∧ h'.machine.memory.read 0x201 = 2
      ∧ h'.machine.programSize = 1 ∧ h'.journal.records = #[.loaded 3, .loaded 1] := by
  obtain ⟨-, -, -, replies, h', hall, hanswers, hlaid⟩ :=
    loads_overlay (h := ofSeed 0 10) ⟨0, 10, [], .nil⟩ [#[1, 2, 3], #[], #[9]]
  obtain ⟨r₁, _, h₁, hanswers', rfl⟩ := List.forall₂_cons_left_iff.1 hanswers
  obtain ⟨r₂, _, h₂, hanswers'', rfl⟩ := List.forall₂_cons_left_iff.1 hanswers'
  obtain ⟨r₃, _, h₃, hnone, rfl⟩ := List.forall₂_cons_left_iff.1 hanswers''
  obtain rfl := List.forall₂_nil_left_iff.1 hnone
  refine ⟨_, h', hall, ?_, hlaid.above 0 (by decide), hlaid.above 1 (by decide), hlaid.size, ?_⟩
  · rw [h₁.loaded.2 (by decide), h₂.empty.2 rfl, h₃.loaded.2 (by decide)]
  · rw [hlaid.rest]
    rfl

end Host

end ChipEight
