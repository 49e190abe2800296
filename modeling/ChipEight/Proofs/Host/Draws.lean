import ChipEight.Proofs.Host.Run
import ChipEight.Proofs.Random.Generator

namespace ChipEight

/-!
# Draws — the random bytes of a run, in the order of the stream

A step draws a byte when its instruction is the random one. How many were drawn before fixes which
word of the stream the next draw takes; nothing else that is done to a machine moves the stream on.

* `Executed.isDraw`, `draws` — the steps that draw a byte;
* `exists_before_draw` — the steps before a draw;
* `Machine.Path.random_eq`, `Machine.Path.random_of_executed` — the stream along a path;
* `Host.draws_follow_stream` — the bytes of a session.
-/

/-- Whether a step draws a random byte. -/
def Executed.isDraw (e : Executed) : Bool :=
  match e.instruction with
  | .random _ _ => true
  | _ => false

/-- The steps that draw a random byte, in order. -/
def draws (steps : List Executed) : List Executed :=
  steps.filter Executed.isDraw

variable {steps : List Executed} {e : Executed} {j : Nat}

theorem isDraw_iff : e.isDraw = true ↔ ∃ x mask, e.instruction = .random x mask := by
  unfold Executed.isDraw
  constructor
  · intro h
    split at h
    case h_1 x mask hi => exact ⟨x, mask, hi⟩
    case h_2 => cases h
  · rintro ⟨x, mask, hi⟩
    rw [hi]

theorem draws_concat_of_draw (h : e.isDraw = true) : draws (steps ++ [e]) = draws steps ++ [e] := by
  simp [draws, h]

theorem draws_concat_of_other (h : ¬ e.isDraw = true) : draws (steps ++ [e]) = draws steps := by
  simp [draws, h]

/-- Before the draw at place `j` there are `j` draws. -/
theorem exists_before_draw (h : (draws steps)[j]? = some e) :
    ∃ pre post, steps = pre ++ e :: post ∧ e.isDraw = true ∧ (draws pre).length = j := by
  obtain ⟨hj, he⟩ := List.getElem?_eq_some_iff.1 h
  have hcut : draws steps = (draws steps).take j ++ e :: (draws steps).drop (j + 1) := by
    rw [← he, ← List.drop_eq_getElem_cons hj, List.take_append_drop]
  obtain ⟨pre, rest, rfl, hpre, hrest⟩ := List.filter_eq_append_iff.1 hcut
  obtain ⟨between, post, rfl, hbetween, hdraw, -⟩ := List.filter_eq_cons_iff.1 hrest
  refine ⟨pre ++ between, post, by rw [List.append_assoc], hdraw, ?_⟩
  rw [draws, List.filter_append, hpre, List.filter_eq_nil_iff.2 hbetween, List.append_nil,
    List.length_take]
  exact Nat.min_eq_left (Nat.le_of_lt hj)

/-! ### The stream along a path -/

namespace Machine

variable {start m : Machine} {es : List Event} {seed : UInt64}

/-- Along a path as many words of the stream are drawn as there were steps that draw one. -/
theorem Path.random_eq (hs : start.random = .ofSeed seed) (hp : start.Path es m) :
    m.random = ⟨Random.keyOfSeed seed, (draws (executed es)).length⟩ := by
  refine hp.induction
    (P := fun steps m => m.random = ⟨Random.keyOfSeed seed, (draws steps).length⟩) hs ?_ ?_
  · intro steps m m' outcome hm h
    by_cases hd : Executed.isDraw ⟨m, outcome, m'⟩ = true
    · obtain ⟨x, mask, hi⟩ := isDraw_iff.1 hd
      rw [(random_of_step_random h hi).1, hm, draws_concat_of_draw hd, List.length_append]
      rfl
    · rw [draws_concat_of_other hd, ← hm]
      exact random_of_step h fun x mask hi => hd (isDraw_iff.2 ⟨x, mask, hi⟩)
  · intro steps m a hm
    rw [← hm]
    exact (act_fixed m a).2.2.2.2.2.2

/-- The stream before and after each step of a path. -/
theorem Path.random_of_executed (hs : start.random = .ofSeed seed) (hp : start.Path es m)
    {pre post : List Executed} (he : executed es = pre ++ e :: post) :
    e.before.random = ⟨Random.keyOfSeed seed, (draws pre).length⟩
      ∧ e.after.random = ⟨Random.keyOfSeed seed, (draws (pre ++ [e])).length⟩ := by
  obtain ⟨es₀, rfl, hp₀, hstep⟩ := hp.exists_before he
  have hafter := (hp₀.step hstep).random_eq hs
  rw [executed_append] at hafter
  exact ⟨hp₀.random_eq hs, hafter⟩

/-- The draw at place `j` of a path takes the word at place `j`. -/
theorem Path.draw_eq (hs : start.random = .ofSeed seed) (hp : start.Path es m)
    (he : (draws (executed es))[j]? = some e) :
    e.before.random = ⟨Random.keyOfSeed seed, j⟩
      ∧ e.after.random = ⟨Random.keyOfSeed seed, j + 1⟩
      ∧ ∃ x mask, e.instruction = .random x mask
        ∧ e.after.registers.get x = (Random.word seed j).toUInt8 &&& mask := by
  obtain ⟨pre, post, hsplit, hdraw, rfl⟩ := exists_before_draw he
  obtain ⟨x, mask, hi⟩ := isDraw_iff.1 hdraw
  obtain ⟨-, -, -, hstep⟩ := hp.exists_before hsplit
  obtain ⟨hbefore, hafter⟩ := hp.random_of_executed hs hsplit
  rw [draws_concat_of_draw hdraw, List.length_append] at hafter
  refine ⟨hbefore, hafter, x, mask, hi, ?_⟩
  rw [(random_of_step_random hstep hi).2, hbefore]
  rfl

end Machine

/-! ### Sessions -/

namespace Host

/-- **Draws follow the stream.** In a session with a new machine, whatever is done to it and also
when it ends in a crash, the draw at place `j` leaves in its register the low byte of word `j` of
the stream of the seed, masked; word `j` is what a generator that makes a block of sixteen words at
a time gives out after `j` others. A draw takes one word whatever its mask is, and no other step and
nothing else that is done takes any. The same draws of two sessions with one seed are given the same
byte. -/
theorem draws_follow_stream {seed : UInt64} {n : Nat} {es : List Event} {h : Host}
    (hr : (ofSeed seed n).Run es h) (actions : List Action) :
    (∀ (j : Nat) (e : Executed), (draws (executed (es ++ h.trail actions)))[j]? = some e →
      ∃ x mask, e.instruction = .random x mask
        ∧ e.after.registers.get x = (Random.word seed j).toUInt8 &&& mask)
    ∧ (∀ j, Random.word seed j = (Random.Generator.after seed j).next.1)
    ∧ (∀ (pre post : List Executed) (e : Executed),
        executed (es ++ h.trail actions) = pre ++ e :: post →
        e.before.random = ⟨Random.keyOfSeed seed, (draws pre).length⟩
        ∧ e.after.random
          = ⟨Random.keyOfSeed seed, (draws pre).length + if e.isDraw then 1 else 0⟩)
    ∧ h.machine.random = ⟨Random.keyOfSeed seed, (draws (executed es)).length⟩
    ∧ (∀ (n' : Nat) (es' : List Event) (h' : Host) (actions' : List Action),
        (ofSeed seed n').Run es' h' →
        ∀ (j : Nat) (e e' : Executed),
          (draws (executed (es ++ h.trail actions)))[j]? = some e →
          (draws (executed (es' ++ h'.trail actions')))[j]? = some e' →
          e.before.random.next.1 = e'.before.random.next.1) := by
  have hstart : ∀ n, (ofSeed seed n).machine.random = .ofSeed seed := fun _ => rfl
  obtain ⟨m, hp⟩ := hr.exists_path_trail actions
  refine ⟨?_, ?_, ?_, hr.path.random_eq (hstart n), ?_⟩
  · intro j e he
    exact (hp.draw_eq (hstart n) he).2.2
  · intro j
    exact (Random.Generator.next_after seed j).symm
  · intro pre post e he
    obtain ⟨hbefore, hafter⟩ := hp.random_of_executed (hstart n) he
    refine ⟨hbefore, ?_⟩
    rw [hafter]
    by_cases hd : e.isDraw = true
    · rw [draws_concat_of_draw hd, if_pos hd, List.length_append]
      rfl
    · rw [draws_concat_of_other hd, if_neg hd]
      rfl
  · intro n' es' h' actions' hr' j e e' he he'
    obtain ⟨m', hp'⟩ := hr'.exists_path_trail actions'
    rw [(hp.draw_eq (hstart n) he).1, (hp'.draw_eq (hstart n') he').1]

/-- A program that draws a byte under the empty mask and another one under the full mask. -/
def drawTwice : Array UInt8 := #[0xC0, 0x00, 0xC1, 0xFF]

theorem draws_follow_stream_drawTwice :
    ∃ d e h, (ofSeed 0 10).Run [.action (.load drawTwice), .step d, .step e] h
      ∧ d.instruction = .random 0 0 ∧ e.instruction = .random 1 0xFF
      ∧ e.after.registers.get 1 = 178 := by
  let m₁ : Machine :=
    { Machine.ofSeed 0 with memory := Memory.initial.overlay drawTwice, programSize := 4 }
  let m₂ : Machine :=
    { m₁.fetch.put 0 (m₁.random.next.1 &&& 0) with random := m₁.random.next.2 }.countDown
  let m₃ : Machine :=
    { m₂.fetch.put 1 (m₂.random.next.1 &&& 0xFF) with random := m₂.random.next.2 }.countDown
  have hfirst : Instruction.decode m₁.fetched = .random 0 0 := by
    rw [Machine.fetched_overlay (m := m₁) (k := 0) rfl rfl (by decide) rfl rfl]
    decide
  have hsecond : Instruction.decode m₂.fetched = .random 1 0xFF := by
    rw [Machine.fetched_overlay (m := m₂) (k := 2) rfl rfl (by decide) rfl rfl]
    decide
  have hstep₁ : m₁.step = .ok (.proceeded, m₂) := by rw [Machine.step, hfirst]; rfl
  have hstep₂ : m₂.step = .ok (.proceeded, m₃) := by rw [Machine.step, hsecond]; rfl
  let h₁ : Host := { ofSeed 0 10 with machine := m₁, journal := ⟨#[], #[], #[.loaded 4]⟩ }
  have hr₁ : (ofSeed 0 10).Run [.action (.load drawTwice)] h₁ :=
    Run.nil.perform (a := .load drawTwice) rfl
  have hr₃ := (hr₁.step hstep₁).step hstep₂
  let d : Executed := ⟨m₁, .proceeded, m₂⟩
  let e : Executed := ⟨m₂, .proceeded, m₃⟩
  have hd : d.isDraw = true := isDraw_iff.2 ⟨0, 0, hfirst⟩
  have he : e.isDraw = true := isDraw_iff.2 ⟨1, 0xFF, hsecond⟩
  have hdraws : draws [d, e] = [d, e] := by simp [draws, hd, he]
  obtain ⟨x, mask, hi, hx⟩ := (draws_follow_stream hr₃ []).1 1 e (by
    rw [show executed _ = [d, e] from rfl, hdraws]
    rfl)
  rw [show e.instruction = .random 1 0xFF from hsecond] at hi
  cases hi
  have hword : (Random.word 0 1).toUInt8 = 178 := by decide +kernel
  refine ⟨d, e, _, hr₃, hfirst, hsecond, ?_⟩
  rw [hx, hword]
  decide

end Host

end ChipEight
