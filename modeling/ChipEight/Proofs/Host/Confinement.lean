import ChipEight.Proofs.Host.Faults
import ChipEight.Proofs.Instruction.Decoding
import ChipEight.Proofs.Machine.Counter

namespace ChipEight

/-!
# Confinement — which steps of a tick are fetched inside the program

A tick looks at the end of the program before each of its steps, and nothing looks at its start.
In a session whose steps are all made by ticks the counter is therefore always before the end of
the program, and it is below the start only once a jump, a call or an offset jump has taken it
there: going on, skips and returns lead up or back to where a call was made.

* `Machine.Inside` — a machine whose counter is inside its program;
* `Executed.DivesBelow` — a step that takes the counter below the start of the program;
* `Machine.Contained`, `Machine.Contained.step` — the invariant, and what a step of a running
  machine makes of it;
* `Host.turns_inside_iff` — the steps of a session are all fetched inside the program exactly when
  none of them, the last one apart, dives below it;
* `Host.exists_turn_below` — a session in which one does.
-/

/-- Whether the counter is inside the program. -/
def Machine.Inside (m : Machine) : Prop :=
  Memory.programStart ≤ m.pc.toNat ∧ m.pc.toNat < Memory.programStart + m.programSize

/-- Whether a step jumped, called or jumped by an offset to an address below the start of the
program. -/
def Executed.DivesBelow (e : Executed) : Prop :=
  (∃ a, e.instruction = .jump a ∧ a.toNat < Memory.programStart)
    ∨ (∃ a, e.instruction = .call a ∧ a.toNat < Memory.programStart)
    ∨ ∃ a, e.instruction = .jumpOffset a
        ∧ a.toNat + (e.before.registers.get Registers.offset).toNat < Memory.programStart

namespace Machine

variable {start m m' : Machine} {es : List Event} {steps pre : List Executed} {e d : Executed}
  {outcome : StepOutcome}

/-! ### The counter between steps -/

/-- Nothing but steps moves the counter. -/
theorem Path.pc_of_last (hp : start.Path es m) (he : executed es = pre ++ [e]) :
    m.pc = e.after.pc := by
  have h : ∀ e, (executed es).getLast? = some e → m.pc = e.after.pc := by
    refine hp.induction (P := fun steps m => ∀ e, steps.getLast? = some e → m.pc = e.after.pc)
      (fun e he => by cases he) (fun steps m m' outcome _ _ e he => ?_) fun steps m a ih e he => ?_
    · rw [List.getLast?_concat] at he
      cases he
      rfl
    · rw [(act_fixed m a).1]
      exact ih e he
  exact h e (by rw [he, List.getLast?_concat])

/-- The base of an offset jump has twelve bits, so that no sum with a register overflows. -/
theorem toNat_offset_target {w a : UInt16} (h : Instruction.decode w = .jumpOffset a) (b : UInt8) :
    (a + b.toUInt16).toNat = a.toNat + b.toNat := by
  have hb := b.toNat_lt
  cases Word.decode_eq_iff.1 h with
  | jumpOffset =>
    rw [UInt16.toNat_add, UInt8.toNat_toUInt16, Word.toNat_address]
    omega

/-- After a step that dives the counter is below the start of the program. -/
theorem pc_of_divesBelow (hs : d.before.step = .ok (d.outcome, d.after)) (hd : d.DivesBelow)
    (hb : d.before.Bounded) : d.after.pc.toNat < Memory.programStart := by
  have hc := continues_of_step hs hb.depth_le
  generalize d.after.pc = pc at hc
  rcases hd with ⟨a, hi, ha⟩ | ⟨a, hi, ha⟩ | ⟨a, hi, ha⟩
  all_goals
    have hw : Instruction.decode d.before.fetched = _ := hi
    rw [hw] at hc
    cases hc
  case inl.jump => exact ha
  case inr.inl.call => exact ha
  case inr.inr.offset => rwa [toNat_offset_target hw]
  all_goals contradiction

/-! ### The invariant -/

/-- After steps that were all made by ticks: they were fetched inside the program, calls return
above its start, and the counter is above its start unless a step dived. -/
structure Contained (steps : List Executed) (m : Machine) : Prop where
  /-- Every step was fetched inside the program. -/
  inside : ∀ e ∈ steps, e.before.Inside
  /-- No return leads below the start of the program. -/
  returns : ∀ a ∈ m.stack.toList, Memory.programStart ≤ a.toNat
  /-- The counter is not below the start, or a step took it there. -/
  above : Memory.programStart ≤ m.pc.toNat ∨ ∃ d ∈ steps, d.DivesBelow

/-- A new machine starts at the start of the program. -/
theorem contained_ofSeed (seed : UInt64) : Contained [] (ofSeed seed) where
  inside := fun _ he => absurd he List.not_mem_nil
  returns := fun _ ha => absurd ha List.not_mem_nil
  above := .inl (Nat.le_refl _)

theorem Contained.act (hc : Contained steps m) (a : Action) : Contained steps (m.act a) where
  inside := hc.inside
  returns := by
    rw [stack_act]
    exact hc.returns
  above := by
    rw [(act_fixed m a).1]
    exact hc.above

/-- A running machine whose steps did not dive has its counter inside the program. -/
theorem Contained.inside_of_running (hc : Contained steps m) (hno : ∀ d ∈ steps, ¬ d.DivesBelow)
    (hr : m.isRunning = true) : m.Inside := by
  obtain ⟨hlt, -⟩ := Bool.and_eq_true_iff.1 hr
  refine ⟨?_, of_decide_eq_true hlt⟩
  rcases hc.above with h | ⟨d, hd, hdive⟩
  · exact h
  · exact absurd hdive (hno d hd)

/-- The addresses to return to after a step from inside the program. -/
theorem returns_of_step (hi : m.Inside) (hb : m.Bounded)
    (hret : ∀ a ∈ m.stack.toList, Memory.programStart ≤ a.toNat)
    (hs : m.step = .ok (outcome, m')) : ∀ a ∈ m'.stack.toList, Memory.programStart ≤ a.toNat := by
  obtain ⟨hge, hlt⟩ := hi
  have hsize := hb.programSize_le
  have hstart : Memory.programStart = 512 := rfl
  by_cases hcall : ∃ a, Instruction.decode m.fetched = .call a
  · obtain ⟨a, ha⟩ := hcall
    rw [(toList_of_step_call hs ha).1]
    intro b hmem
    rcases List.mem_append.1 hmem with hold | hnew
    · exact hret b hold
    · -- the program ends below the top of the memory, so that the sum does not wrap
      rw [List.mem_singleton.1 hnew]
      simp only [UInt16.toNat_add, UInt16.reduceToNat]
      omega
  · by_cases hr : Instruction.decode m.fetched = .ret
    · intro b hmem
      have hlist := (toList_of_step_ret hs hr hb.depth_le).1
      exact hret b (hlist ▸ List.mem_append_left _ hmem)
    · rwa [stack_of_step hs (fun a ha => hcall ⟨a, ha⟩) hr]

/-- Where a step from inside the program leads: not below its start, or the step dives. -/
theorem above_of_step (hi : m.Inside) (hb : m.Bounded)
    (hret : ∀ a ∈ m.stack.toList, Memory.programStart ≤ a.toNat)
    (hs : m.step = .ok (outcome, m')) :
    Memory.programStart ≤ m'.pc.toNat ∨ Executed.DivesBelow ⟨m, outcome, m'⟩ := by
  obtain ⟨hge, hlt⟩ := hi
  have hsize := hb.programSize_le
  have hstart : Memory.programStart = 512 := rfl
  have hc := continues_of_step hs hb.depth_le
  generalize hpc : m'.pc = pc at hc
  generalize hw : Instruction.decode m.fetched = i at hc
  refine (Nat.lt_or_ge pc.toNat Memory.programStart).symm.imp_right fun hbelow => ?_
  cases hc with
  | jump => exact .inl ⟨pc, hw, hbelow⟩
  | call => exact .inr (.inl ⟨pc, hw, hbelow⟩)
  | offset a => exact .inr (.inr ⟨a, hw, toNat_offset_target hw _ ▸ hbelow⟩)
  | ret hlist =>
    have hmem := hret pc (hlist ▸ List.mem_append_right _ (List.mem_singleton.2 rfl))
    omega
  -- from here on the counter moves up by four at most, and the end of the program is too low
  -- for that to wrap
  | wait => omega
  | skip =>
    simp only [UInt16.toNat_add, UInt16.reduceToNat] at hbelow
    omega
  | next =>
    simp only [UInt16.toNat_add, UInt16.reduceToNat] at hbelow
    omega

theorem Contained.step (hc : Contained steps m) (hno : ∀ d ∈ steps, ¬ d.DivesBelow)
    (hr : m.isRunning = true) (hb : m.Bounded) (hs : m.step = .ok (outcome, m')) :
    Contained (steps ++ [⟨m, outcome, m'⟩]) m' where
  inside := List.forall_mem_append.2
    ⟨hc.inside, List.forall_mem_singleton.2 (hc.inside_of_running hno hr)⟩
  returns := returns_of_step (hc.inside_of_running hno hr) hb hc.returns hs
  above := by
    refine (above_of_step (hc.inside_of_running hno hr) hb hc.returns hs).imp_right fun hd => ?_
    exact ⟨_, List.mem_append_right _ (List.mem_singleton.2 rfl), hd⟩

/-- A path of a new machine makes its steps within bounds. -/
theorem Path.bounded_of_mem {seed : UInt64} (hp : (ofSeed seed).Path es m)
    (he : e ∈ executed es) : e.before.Bounded := by
  obtain ⟨pre, post, hsplit⟩ := List.append_of_mem he
  obtain ⟨es₀, -, hpath, -⟩ := hp.exists_before hsplit
  exact hpath.bounded (bounded_ofSeed seed)

/-- Along a path whose steps were all made by a running machine and did not dive, the last one
apart, the invariant holds. -/
theorem Path.contained {seed : UInt64} (hp : (ofSeed seed).Path es m)
    (hr : ∀ e ∈ executed es, e.before.isRunning = true)
    (hno : ∀ d ∈ (executed es).dropLast, ¬ d.DivesBelow) : Contained (executed es) m := by
  -- what is assumed of the steps goes into the induction, for shorter paths have fewer of them
  have hb : ∀ e ∈ executed es, e.before.Bounded := fun e he => hp.bounded_of_mem he
  refine hp.induction (P := fun steps m => (∀ e ∈ steps, e.before.isRunning = true) →
    (∀ e ∈ steps, e.before.Bounded) →
    (∀ d ∈ steps.dropLast, ¬ d.DivesBelow) → Contained steps m)
    (fun _ _ _ => contained_ofSeed seed) (fun steps m m' outcome ih hs hr hb hno => ?_)
    (fun steps m a ih hr hb hno => (ih hr hb hno).act a) hr hb hno
  rw [List.dropLast_concat] at hno
  have hlast : (⟨m, outcome, m'⟩ : Executed) ∈ steps ++ [⟨m, outcome, m'⟩] := by simp
  have hc := ih (fun e he => hr e (List.mem_append_left _ he))
    (fun e he => hb e (List.mem_append_left _ he))
    (fun d hd => hno d ((List.dropLast_sublist steps).subset hd))
  exact hc.step hno (hr _ hlast) (hb _ hlast) hs

/-- An element before the last one has another one right after it. -/
theorem exists_next_of_mem_dropLast {α : Type} {l : List α} {d : α} (hd : d ∈ l.dropLast) :
    ∃ pre e post, l = (pre ++ [d]) ++ e :: post := by
  rcases List.eq_nil_or_concat l with rfl | ⟨front, x, rfl⟩
  · cases hd
  · rw [List.concat_eq_append, List.dropLast_concat] at hd
    obtain ⟨pre, post, rfl⟩ := List.append_of_mem hd
    cases post with
    | nil => exact ⟨pre, x, [], by simp⟩
    | cons e post => exact ⟨pre, e, post ++ [x], by simp⟩

/-- After a step that dives, the next step is fetched below the start of the program. -/
theorem Path.exists_below {seed : UInt64} (hp : (ofSeed seed).Path es m)
    (hd : d ∈ (executed es).dropLast) (hdive : d.DivesBelow) :
    ∃ e ∈ executed es, e.before.pc.toNat < Memory.programStart := by
  obtain ⟨pre, e, post, hsplit⟩ := exists_next_of_mem_dropLast hd
  -- cut twice: before the step that dives, whose call stack is then bounded, and before the next
  obtain ⟨es₁, hes₁, hpath, -⟩ := hp.exists_before hsplit
  obtain ⟨es₀, -, hpath₀, hstep⟩ := hpath.exists_before hes₁
  refine ⟨e, by simp [hsplit], ?_⟩
  rw [hpath.pc_of_last hes₁]
  exact pc_of_divesBelow hstep hdive (hpath₀.bounded (bounded_ofSeed seed))

/-- The steps of a tick are made by a running machine. -/
theorem Path.isRunning_of_turn (hp : start.Path es m) (he : .turn e ∈ es) :
    e.before.isRunning = true := by
  induction hp with
  | nil => exact absurd he List.not_mem_nil
  | step _ _ ih =>
    rcases List.mem_append.1 he with h | h
    · exact ih h
    · cases List.mem_singleton.1 h
  | turn _ hr _ ih =>
    rcases List.mem_append.1 he with h | h
    · exact ih h
    · cases List.mem_singleton.1 h
      exact hr
  | action a _ ih =>
    rcases List.mem_append.1 he with h | h
    · exact ih h
    · cases List.mem_singleton.1 h

theorem step_of_jump {a : UInt16} (hi : Instruction.decode m.fetched = .jump a) :
    m.step = .ok (.proceeded, { m.fetch with pc := a }.countDown) := by
  refine step_eq_ok_iff.2 ⟨_, ?_, rfl⟩
  rw [hi]
  rfl

end Machine

namespace Host

variable {h : Host} {actions : List Action} {a : Action}

/-! ### Sessions without steps of their own -/

theorem step_notMem_events (ha : a ≠ .step) (e : Executed) : .step e ∉ h.events a := by
  cases a
  case step => exact absurd rfl ha
  all_goals simp [events]

theorem step_notMem_trail (ha : .step ∉ actions) (e : Executed) : .step e ∉ h.trail actions := by
  induction actions generalizing h with
  | nil => exact List.not_mem_nil
  | cons a rest ih =>
    obtain ⟨hfirst, hrest⟩ := not_or.1 (mt List.mem_cons.2 ha)
    cases hp : h.perform a with
    | error c =>
      rw [trail_of_crash hp]
      exact step_notMem_events (Ne.symm hfirst) e
    | ok r =>
      rw [trail_of_perform hp, List.mem_append, not_or]
      exact ⟨step_notMem_events (Ne.symm hfirst) e, ih hrest⟩

theorem isRunning_of_mem_trail {seed : UInt64} {n : Nat} (ha : .step ∉ actions) {e : Executed}
    (he : e ∈ executed ((ofSeed seed n).trail actions)) : e.before.isRunning = true := by
  obtain ⟨m, hp⟩ := (Run.nil : (ofSeed seed n).Run [] _).exists_path_trail actions
  rw [List.nil_append] at hp
  obtain ⟨d, hd, hde⟩ := List.mem_filterMap.1 he
  cases d with
  | step => exact absurd hd (step_notMem_trail ha _)
  | turn e' => cases hde; exact hp.isRunning_of_turn hd
  | action => cases hde

/-- **Confinement**: in a session of a new machine whose steps are all made by ticks, every step is
fetched before the end of the program that is loaded at that moment, with the switch on; and every
step is fetched inside the program exactly when no step, the last one apart, is a jump, a call or an
offset jump to an address below the start of the program. Returns, skips and going on never lead
there by themselves. -/
theorem turns_inside_iff (seed : UInt64) (n : Nat) (actions : List Action)
    (ha : .step ∉ actions) :
    (∀ e ∈ executed ((ofSeed seed n).trail actions),
      e.before.pc.toNat < Memory.programStart + e.before.programSize ∧ e.before.running = true)
    ∧ ((∀ e ∈ executed ((ofSeed seed n).trail actions), e.before.Inside)
      ↔ ∀ d ∈ (executed ((ofSeed seed n).trail actions)).dropLast, ¬ d.DivesBelow) := by
  have hr : ∀ e ∈ executed ((ofSeed seed n).trail actions), e.before.isRunning = true :=
    fun e => isRunning_of_mem_trail ha
  obtain ⟨m, hp⟩ := (Run.nil : (ofSeed seed n).Run [] _).exists_path_trail actions
  rw [List.nil_append] at hp
  refine ⟨fun e he => ?_, fun hin d hd hdive => ?_, fun hno => (hp.contained hr hno).inside⟩
  · obtain ⟨hlt, hon⟩ := Bool.and_eq_true_iff.1 (hr e he)
    exact ⟨of_decide_eq_true hlt, hon⟩
  · obtain ⟨e, he, hbelow⟩ := hp.exists_below hd hdive
    exact absurd (hin e he).1 (Nat.not_le.2 hbelow)

/-- The steps of a session that loads a program and makes a tick. -/
theorem executed_trail_load_tick {image : Array UInt8} {reply : Reply} {h₁ : Host}
    (hp : h.perform (.load image) = .ok (reply, h₁)) :
    executed (h.trail [.load image, .tick]) = h₁.machine.turns h₁.stepsPerTick := by
  rw [trail_of_perform hp, trail_singleton, executed_append]
  exact executed_map_turn _

/-- A program that jumps to its own start. -/
def circling : Array UInt8 := #[0x12, 0x00]

theorem turns_inside_iff_circling :
    .step ∉ [Action.load circling, .tick]
      ∧ (executed ((ofSeed 0 2).trail [.load circling, .tick])).length = 2
      ∧ ∀ e ∈ executed ((ofSeed 0 2).trail [.load circling, .tick]), e.before.Inside := by
  let m₁ : Machine :=
    { Machine.ofSeed 0 with memory := Memory.initial.overlay circling, programSize := 2 }
  let m₂ : Machine := { m₁.fetch with pc := 0x200 }.countDown
  let m₃ : Machine := { m₂.clearDrawFlag.fetch with pc := 0x200 }.countDown
  have hi₁ : Instruction.decode m₁.fetched = .jump 0x200 := by
    rw [Machine.fetched_overlay (m := m₁) (k := 0) rfl rfl (by decide) rfl rfl]
    decide
  have hi₂ : Instruction.decode m₂.clearDrawFlag.fetched = .jump 0x200 := by
    rw [Machine.fetched_overlay (m := m₂.clearDrawFlag) (k := 0) rfl rfl (by decide) rfl rfl]
    decide
  have hsteps : executed ((ofSeed 0 2).trail [.load circling, .tick])
      = [⟨m₁, .proceeded, m₂⟩, ⟨m₂.clearDrawFlag, .proceeded, m₃⟩] := by
    rw [executed_trail_load_tick (h := ofSeed 0 2) rfl]
    exact (Machine.turns_of_step rfl (Machine.step_of_jump hi₁)).trans
      (congrArg _ (Machine.turns_of_step rfl (Machine.step_of_jump hi₂)))
  have hno : ¬ Executed.DivesBelow ⟨m₁, .proceeded, m₂⟩ := by
    rintro (⟨a, ha, hlt⟩ | ⟨a, ha, -⟩ | ⟨a, ha, -⟩) <;> cases hi₁.symm.trans ha
    exact absurd hlt (by decide)
  obtain ⟨-, hiff⟩ := turns_inside_iff 0 2 [.load circling, .tick] (by decide)
  refine ⟨by decide, by rw [hsteps]; rfl, hiff.2 ?_⟩
  rw [hsteps]
  exact List.forall_mem_singleton.2 hno

/-- A program that jumps to the glyphs. -/
def glyphJump : Array UInt8 := #[0x10, 0x00]

/-- Nothing keeps a tick from executing the bytes below the program. -/
theorem exists_turn_below :
    ∃ e ∈ executed ((ofSeed 0 2).trail [.load glyphJump, .tick]),
      e.before.pc = 0 ∧ e.before.fetched = 0xF090 ∧ ¬ e.before.Inside := by
  let m₁ : Machine :=
    { Machine.ofSeed 0 with memory := Memory.initial.overlay glyphJump, programSize := 2 }
  let m₂ : Machine := { m₁.fetch with pc := 0 }.countDown
  have hi₁ : Instruction.decode m₁.fetched = .jump 0 := by
    rw [Machine.fetched_overlay (m := m₁) (k := 0) rfl rfl (by decide) rfl rfl]
    decide
  have hfetched : m₂.clearDrawFlag.fetched = 0xF090 := by
    show Memory.word (Memory.initial.overlay glyphJump) 0 = _
    rw [Memory.word, Machine.read_overlay, Machine.read_overlay, if_neg (by decide),
      if_neg (by decide), Machine.read_initial, Machine.read_initial]
    decide
  have hs₂ : m₂.clearDrawFlag.step = .ok (.unknown 0xF090, m₂.clearDrawFlag.fetch.countDown) := by
    refine Machine.step_eq_ok_iff.2 ⟨_, ?_, rfl⟩
    rw [hfetched]
    rfl
  refine ⟨⟨m₂.clearDrawFlag, .unknown 0xF090, m₂.clearDrawFlag.fetch.countDown⟩, ?_, rfl,
    hfetched, ?_⟩
  · rw [executed_trail_load_tick (h := ofSeed 0 2) rfl]
    have hturns : m₁.turns 2 = _ := (Machine.turns_of_step rfl (Machine.step_of_jump hi₁)).trans
      (congrArg _ (Machine.turns_of_step rfl hs₂))
    exact hturns ▸ List.mem_cons_of_mem _ List.mem_cons_self
  · rintro ⟨hge, -⟩
    exact absurd hge (by decide)

end Host

end ChipEight
