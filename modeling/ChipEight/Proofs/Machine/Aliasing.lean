import ChipEight.Proofs.Machine.Steps
import Mathlib.Data.List.Forall2

namespace ChipEight

/-!
# Aliasing — machines that differ in the upper bits of addresses

Only the low twelve bits of an address reach the memory. Two machines that agree in everything but
the upper bits of the program counter, of the index and of the return addresses in use fetch the
same words and go on agreeing, because every sum on addresses keeps what they have in common: the
number of bytes divides the number of addresses. One instruction looks at the whole index, the one
that writes decimal digits, and what it sees of the upper bits goes to the flag register.

* `Memory.Aliased` — addresses that differ by a multiple of the number of bytes;
* `CallStack.Aliased`, `Machine.Aliased` — stacks and machines that differ in nothing else;
* `Machine.Aliased.execute` — one instruction, other than the one on decimal digits;
* `Machine.Aliased.execute_decimal` — that one;
* `Machine.Aliased.step`, `Machine.Aliased.steps` — a step, and any number of them;
* `Machine.same_steps_of_aliased` — all of it together.
-/

/-! ### Addresses -/

namespace Memory

/-- Two addresses that differ by a multiple of the number of bytes. -/
def Aliased (a c : UInt16) : Prop :=
  a.toNat % 4096 = c.toNat % 4096

instance (a c : UInt16) : Decidable (Aliased a c) :=
  inferInstanceAs (Decidable (a.toNat % 4096 = c.toNat % 4096))

variable {m : Memory} {a c : UInt16}

theorem Aliased.refl (a : UInt16) : Aliased a a := rfl

theorem Aliased.add (h : Aliased a c) (d : UInt16) : Aliased (a + d) (c + d) := by
  simp only [Aliased, UInt16.toNat_add] at h ⊢
  omega

theorem Aliased.sub (h : Aliased a c) (d : UInt16) : Aliased (a - d) (c - d) := by
  have := d.toNat_lt
  simp only [Aliased, UInt16.toNat_sub] at h ⊢
  omega

/-- A skip moves both addresses or none. -/
theorem Aliased.skip (h : Aliased a c) (b : Bool) :
    Aliased (if b then a + 2 else a) (if b then c + 2 else c) := by
  cases b
  · exact h
  · exact h.add 2

theorem Aliased.slot_eq (h : Aliased a c) : slot a = slot c :=
  slot_eq_iff.2 h

theorem Aliased.read_eq (h : Aliased a c) : m.read a = m.read c := by
  simp only [read, h.slot_eq]

theorem Aliased.word_eq (h : Aliased a c) : m.word a = m.word c := by
  rw [word, word, h.read_eq, (h.add 1).read_eq]

theorem Aliased.readList_eq (h : Aliased a c) (n : Nat) : m.readList a n = m.readList c n :=
  List.map_congr_left fun k _ => (h.add (UInt16.ofNat k)).read_eq

theorem Aliased.writeList_eq (h : Aliased a c) (bs : List UInt8) :
    m.writeList a bs = m.writeList c bs := by
  induction bs generalizing m a c with
  | nil => rfl
  | cons b bs ih =>
    have hw : m.write a b = m.write c b := by simp only [write, h.slot_eq]
    rw [writeList_cons, writeList_cons, hw, ih (h.add 1)]

end Memory

/-! ### Call stacks -/

/-- Lists with a last element each are related when their fronts and their last elements are. -/
theorem forall₂_concat_iff {α : Type} {R : α → α → Prop} {xs ys : List α} {a c : α} :
    List.Forall₂ R (xs ++ [a]) (ys ++ [c]) ↔ List.Forall₂ R xs ys ∧ R a c := by
  rw [← List.forall₂_reverse_iff, List.reverse_concat, List.reverse_concat, List.forall₂_cons,
    List.forall₂_reverse_iff, and_comm]

namespace CallStack

/-- Two stacks within the capacity, of one depth and with aliased return addresses. What is in the
free slots does not matter. -/
structure Aliased (s t : CallStack) : Prop where
  /-- As many slots are taken. -/
  depth_eq : s.depth = t.depth
  /-- No more slots are taken than there are. -/
  depth_le : s.depth ≤ 16
  /-- The return addresses are aliased, one by one. -/
  addresses : List.Forall₂ Memory.Aliased s.toList t.toList

variable {s t : CallStack} {a c : UInt16}

/-- A push of aliased addresses succeeds on both stacks or on none. -/
theorem Aliased.push? (h : s.Aliased t) (ha : Memory.Aliased a c) :
    Option.Rel Aliased (s.push? a) (t.push? c) := by
  cases hs : s.push? a with
  | none =>
    have hfull : 16 ≤ t.depth := h.depth_eq ▸ push?_eq_none_iff.1 hs
    rw [push?_eq_none_iff.2 hfull]
    exact .none
  | some s' =>
    cases ht : t.push? c with
    | none =>
      have hfull : 16 ≤ s.depth := h.depth_eq ▸ push?_eq_none_iff.1 ht
      rw [push?_eq_none_iff.2 hfull] at hs
      cases hs
    | some t' =>
      obtain ⟨hlt, hd⟩ := depth_of_push? hs
      obtain ⟨-, hd'⟩ := depth_of_push? ht
      refine .some ⟨by rw [hd, hd', h.depth_eq], by omega, ?_⟩
      rw [toList_of_push? hs, toList_of_push? ht]
      exact forall₂_concat_iff.2 ⟨h.addresses, ha⟩

/-- A pop succeeds on both stacks or on none, and gives aliased addresses. -/
theorem Aliased.pop? (h : s.Aliased t) :
    Option.Rel (fun p q => Memory.Aliased p.1 q.1 ∧ p.2.Aliased q.2) s.pop? t.pop? := by
  cases hs : s.pop? with
  | none =>
    have hempty : t.depth = 0 := h.depth_eq ▸ pop?_eq_none_iff.1 hs
    rw [pop?_eq_none_iff.2 hempty]
    exact .none
  | some p =>
    cases ht : t.pop? with
    | none =>
      have hempty : s.depth = 0 := h.depth_eq.trans (pop?_eq_none_iff.1 ht)
      rw [pop?_eq_none_iff.2 hempty] at hs
      cases hs
    | some q =>
      have hle : t.depth ≤ 16 := h.depth_eq ▸ h.depth_le
      have hd := depth_of_pop? hs
      have hd' := depth_of_pop? ht
      have hlists := h.addresses
      rw [toList_of_pop? h.depth_le hs, toList_of_pop? hle ht, forall₂_concat_iff] at hlists
      have hdepth := h.depth_eq
      have hcap := h.depth_le
      exact .some ⟨hlists.2, by omega, by omega, hlists.1⟩

end CallStack

/-! ### Machines -/

/-- A flag that is written over leaves no trace. -/
theorem Registers.put_flag_report (r : Registers) (b : Bool) (c : UInt8) :
    (r.report b).put flag c = r.put flag c := by
  simp [report, Bank.put]

/-- What a step comes to, as far as no address is part of it: its outcome, and the registers, the
memory, the screen, the timers and the draw flag right after it. -/
def Executed.shown (e : Executed) :
    StepOutcome × Registers × Memory × Screen × UInt8 × UInt8 × Bool :=
  (e.outcome, e.after.registers, e.after.memory, e.after.screen, e.after.delay, e.after.sound,
    e.after.drawFlag)

namespace Machine

/-- Two machines that differ in the upper bits of addresses and in the free slots of the stack. -/
structure Aliased (m k : Machine) : Prop where
  memory : m.memory = k.memory
  screen : m.screen = k.screen
  /-- The program counters are aliased. -/
  pc : Memory.Aliased m.pc k.pc
  /-- The indices are aliased. -/
  index : Memory.Aliased m.index k.index
  registers : m.registers = k.registers
  /-- The return addresses are aliased. -/
  stack : m.stack.Aliased k.stack
  delay : m.delay = k.delay
  sound : m.sound = k.sound
  keypad : m.keypad = k.keypad
  word : m.word = k.word
  drawFlag : m.drawFlag = k.drawFlag
  running : m.running = k.running
  programSize : m.programSize = k.programSize
  random : m.random = k.random

/-- The machine with other addresses in place of its own. -/
def readdress (m : Machine) (pc index : UInt16) (stack : CallStack) : Machine :=
  { m with pc := pc, index := index, stack := stack }

variable {m k : Machine} {p a : UInt16} {s : CallStack} {i : Instruction}

/-- A machine is aliased with what it is with aliased addresses. -/
theorem aliased_readdress (hp : Memory.Aliased m.pc p) (hx : Memory.Aliased m.index a)
    (hs : m.stack.Aliased s) : m.Aliased (m.readdress p a s) :=
  ⟨rfl, rfl, hp, hx, rfl, hs, rfl, rfl, rfl, rfl, rfl, rfl, rfl, rfl⟩

theorem Aliased.eq_readdress (h : m.Aliased k) : k = m.readdress k.pc k.index k.stack := by
  obtain ⟨h₁, h₂, -, -, h₅, -, h₇, h₈, h₉, h₁₀, h₁₁, h₁₂, h₁₃, h₁₄⟩ := h
  rw [readdress, h₁, h₂, h₅, h₇, h₈, h₉, h₁₀, h₁₁, h₁₂, h₁₃, h₁₄]

/-! ### One instruction -/

/-- Two machines that are aliased once the flag register holds the same in both. -/
def AliasedButFlag (m k : Machine) : Prop :=
  (m.put Registers.flag 0).Aliased (k.put Registers.flag 0)

/-- An instruction other than the one on decimal digits does the same to aliased machines. -/
theorem Aliased.execute (h : m.Aliased k) (hd : ∀ x, i ≠ .decimal x) :
    SameResult Aliased (m.execute i) (k.execute i) := by
  obtain ⟨hp, hx, hs⟩ := And.intro h.pc (And.intro h.index h.stack)
  rw [h.eq_readdress]
  generalize k.pc = p, k.index = a, k.stack = s at hp hx hs
  cases i
  case decimal x => exact absurd rfl (hd x)
  -- the call stack
  case ret =>
    simp only [Machine.execute, readdress]
    have hpop := hs.pop?
    generalize m.stack.pop? = q, s.pop? = r at hpop
    cases hpop with
    | none => exact .fault _
    | some h => exact .done _ (aliased_readdress h.1 hx h.2)
  case call c =>
    simp only [Machine.execute, readdress]
    have hpush := hs.push? hp
    generalize m.stack.push? m.pc = q, s.push? p = r at hpush
    cases hpush with
    | none => exact .fault _
    | some h => exact .done _ (aliased_readdress (.refl c) hx h)
  -- the program counter
  case jump c => exact .done _ (aliased_readdress (.refl _) hx hs)
  case jumpOffset c => exact .done _ (aliased_readdress (.refl _) hx hs)
  case skipEqual x b => exact .done _ (aliased_readdress (hp.skip _) hx hs)
  case skipUnequal x b => exact .done _ (aliased_readdress (hp.skip _) hx hs)
  case skipSame x y => exact .done _ (aliased_readdress (hp.skip _) hx hs)
  case skipDifferent x y => exact .done _ (aliased_readdress (hp.skip _) hx hs)
  case skipKeyDown x => exact .done _ (aliased_readdress (hp.skip _) hx hs)
  case skipKeyUp x => exact .done _ (aliased_readdress (hp.skip _) hx hs)
  case awaitKey x =>
    simp only [Machine.execute, readdress]
    cases m.keypad.firstDown with
    | none => exact .done _ (aliased_readdress (hp.sub 2) hx hs)
    | some j => exact .done _ (aliased_readdress hp hx hs)
  -- the index
  case setIndex c => exact .done _ (aliased_readdress hp (.refl _) hs)
  case addIndex x => exact .done _ (aliased_readdress hp (hx.add _) hs)
  case glyph x => exact .done _ (aliased_readdress hp (.refl _) hs)
  -- the memory at the index
  case draw x y n =>
    simp only [Machine.execute, draw, readdress, ← hx.readList_eq]
    exact .done _ (aliased_readdress hp hx hs)
  case store x =>
    simp only [Machine.execute, storeRegisters, readdress, ← hx.writeList_eq]
    exact .done _ (aliased_readdress hp hx hs)
  case load x =>
    simp only [Machine.execute, loadRegisters, readdress, ← (hx.add _).read_eq]
    exact .done _ (aliased_readdress hp hx hs)
  all_goals exact .done _ (aliased_readdress hp hx hs)

/-- The decimal digits go to the same bytes. The flag tells whether the index as a whole is near or
past the top of the memory, and so it can differ. -/
theorem Aliased.execute_decimal (h : m.Aliased k) (x : Nibble) :
    SameResult AliasedButFlag (m.execute (.decimal x)) (k.execute (.decimal x)) := by
  obtain ⟨hp, hx, hs⟩ := And.intro h.pc (And.intro h.index h.stack)
  rw [h.eq_readdress]
  generalize k.pc = p, k.index = a, k.stack = s at hp hx hs
  simp only [Machine.execute, writeDecimal, readdress, ← hx.writeList_eq]
  refine .done _ ?_
  simp only [AliasedButFlag, Machine.put, Registers.put_flag_report]
  exact aliased_readdress hp hx hs

/-! ### One step -/

theorem Aliased.fetched_eq (h : m.Aliased k) : m.fetched = k.fetched := by
  rw [fetched, fetched, ← h.memory, h.pc.word_eq]

theorem Aliased.fetch (h : m.Aliased k) : m.fetch.Aliased k.fetch := by
  have hw := h.fetched_eq
  rw [h.eq_readdress] at hw ⊢
  simp only [Machine.fetch, ← hw]
  exact aliased_readdress (h.pc.add 2) h.index h.stack

theorem Aliased.countDown (h : m.Aliased k) : m.countDown.Aliased k.countDown := by
  rw [h.eq_readdress]
  exact aliased_readdress h.pc h.index h.stack

/-- A step on an instruction other than the one on decimal digits comes to the same on aliased
machines and leaves them aliased. -/
theorem Aliased.step (h : m.Aliased k) (hd : ∀ x, Instruction.decode m.fetched ≠ .decimal x) :
    SameResult Aliased m.step k.step :=
  SameResult.step h.fetched_eq (h.fetch.execute hd) Aliased.countDown

theorem Aliased.step_decimal (h : m.Aliased k) {x : Nibble}
    (hx : Instruction.decode m.fetched = .decimal x) :
    SameResult AliasedButFlag m.step k.step := by
  refine SameResult.step h.fetched_eq ?_ Aliased.countDown
  rw [hx]
  exact h.fetch.execute_decimal x

/-! ### Any number of steps -/

theorem Aliased.shown_eq {m' k' : Machine} {outcome : StepOutcome} (h : m'.Aliased k') :
    Executed.shown ⟨m, outcome, m'⟩ = Executed.shown ⟨k, outcome, k'⟩ := by
  simp only [Executed.shown, h.registers, h.memory, h.screen, h.delay, h.sound, h.drawFlag]

/-- As long as no decimal digits are written, aliased machines go on making the same steps, and fail
at the same step if they fail. -/
theorem Aliased.steps (h : m.Aliased k) {n : Nat}
    (hd : ∀ e ∈ m.steps n, ∀ x, e.instruction ≠ .decimal x) :
    (m.steps n).map Executed.shown = (k.steps n).map Executed.shown
    ∧ ∀ f, m.afterSteps n = .error f ↔ k.afterSteps n = .error f := by
  induction n generalizing m k with
  | zero => exact ⟨rfl, fun f => ⟨fun e => (nomatch e), fun e => (nomatch e)⟩⟩
  | succ n ih =>
    cases hm : m.step with
    | error f =>
      -- the only instruction that is left out never fails
      have hs : SameResult Aliased m.step k.step := by
        refine h.step fun x hx => ?_
        rcases execute_eq_error_iff.1 (step_eq_error_iff.1 hm) with ⟨hi, -⟩ | ⟨⟨c, hi⟩, -⟩ <;>
          rw [hx] at hi <;> cases hi
      rw [hm] at hs
      generalize hk : k.step = r at hs
      cases hs
      rw [steps_of_fault hm, steps_of_fault hk, afterSteps_of_fault hm, afterSteps_of_fault hk]
      exact ⟨rfl, fun _ => Iff.rfl⟩
    | ok r =>
      rw [steps_of_step hm] at hd
      have hs := h.step (hd ⟨m, r.1, r.2⟩ List.mem_cons_self)
      rw [hm] at hs
      generalize hk : k.step = r' at hs
      obtain ⟨outcome, m'⟩ := r
      cases hs with
      | done _ h' =>
        obtain ⟨hshown, hfault⟩ := ih h' fun e he => hd e (List.mem_cons_of_mem _ he)
        rw [steps_of_step hm, steps_of_step hk, afterSteps_of_step hm, afterSteps_of_step hk,
          List.map_cons, List.map_cons, hshown, h'.shown_eq]
        exact ⟨rfl, hfault⟩

/-- **Addresses count modulo the number of bytes.** Two machines that differ in nothing but the
upper bits of the program counter, of the index and of the return addresses, and in the free slots
of the call stack, fetch the same word. Their steps fail with the same fault, or come to the same
outcome and leave machines that again differ in nothing else; on the instruction that writes decimal
digits the flag register can differ as well. So for any number of steps among which there is no such
instruction, the two machines have the same outcomes, registers, memory, screen, timers and draw
flag after every step, and the same fault if there is one. -/
theorem same_steps_of_aliased (h : m.Aliased k) :
    m.fetched = k.fetched
    ∧ ((∀ x, Instruction.decode m.fetched ≠ .decimal x) → SameResult Aliased m.step k.step)
    ∧ (∀ x, Instruction.decode m.fetched = .decimal x → SameResult AliasedButFlag m.step k.step)
    ∧ ∀ n, (∀ e ∈ m.steps n, ∀ x, e.instruction ≠ .decimal x) →
        (m.steps n).map Executed.shown = (k.steps n).map Executed.shown
        ∧ ∀ f, m.afterSteps n = .error f ↔ k.afterSteps n = .error f :=
  ⟨h.fetched_eq, h.step, fun _ hx => h.step_decimal hx, fun _ hd => h.steps hd⟩

/-- A program that calls the address four bytes on, where decimal digits are written. -/
def callDigits : Array UInt8 := #[0x22, 0x04, 0x00, 0x00, 0xF0, 0x33]

theorem same_steps_of_aliased_callDigits :
    ∃ m k m' k' : Machine, m.Aliased k ∧ m.pc ≠ k.pc ∧ m.index ≠ k.index
      ∧ m.afterSteps 1 = .ok m' ∧ k.afterSteps 1 = .ok k'
      ∧ (m.steps 1).map Executed.shown = (k.steps 1).map Executed.shown
      ∧ m'.stack.toList ≠ k'.stack.toList
      ∧ SameResult AliasedButFlag m'.step k'.step
      ∧ ¬ SameResult Aliased m'.step k'.step := by
  let m : Machine :=
    { ofSeed 0 with memory := Memory.initial.overlay callDigits, programSize := 6 }
  let k : Machine := { m with pc := 0x1200, index := 0x1000 }
  let m' : Machine :=
    { m.fetch with pc := 0x204, stack := ⟨m.stack.slots.set 0 0x202, 1⟩ }.countDown
  let k' : Machine :=
    { k.fetch with pc := 0x204, stack := ⟨k.stack.slots.set 0 0x1202, 1⟩ }.countDown
  have h : m.Aliased k := aliased_readdress (by decide) (by decide) ⟨rfl, by decide, .nil⟩
  have hm : Instruction.decode m.fetched = .call 0x204 := by
    rw [fetched_overlay (m := m) (k := 0) rfl rfl (by decide) rfl rfl]
    decide
  obtain ⟨hw, hcall, -, hrun⟩ := same_steps_of_aliased h
  have hk : Instruction.decode k.fetched = .call 0x204 := hw ▸ hm
  have hstep : m.step = .ok (.proceeded, m') := by rw [Machine.step, hm]; rfl
  have hstep' : k.step = .ok (.proceeded, k') := by rw [Machine.step, hk]; rfl
  have hafter : m'.Aliased k' := by
    have hs := hcall fun x hx => by rw [hm] at hx; cases hx
    rw [hstep, hstep'] at hs
    exact hs.related
  have hdigits : Instruction.decode m'.fetched = .decimal 0 := by
    rw [fetched_overlay (m := m') (k := 4) rfl rfl (by decide) rfl rfl]
    decide
  have hdigits' : Instruction.decode k'.fetched = .decimal 0 := hafter.fetched_eq ▸ hdigits
  obtain ⟨-, -, hflag, -⟩ := same_steps_of_aliased hafter
  refine ⟨m, k, m', k', h, by decide, by decide, afterSteps_of_step hstep,
    afterSteps_of_step hstep', (hrun 1 ?_).1, by decide, hflag 0 hdigits, ?_⟩
  · intro e he x hx
    rw [steps_of_step hstep] at he
    obtain rfl := List.mem_singleton.1 he
    rw [show Instruction.decode m.fetched = .decimal x from hx] at hm
    cases hm
  · -- the last digit is past the top of the memory for one of the two only
    intro hs
    rw [Machine.step, hdigits, Machine.step, hdigits'] at hs
    have hv := congrArg (Bank.get · Registers.flag) hs.related.registers
    revert hv
    decide

end Machine

end ChipEight
