import ChipEight.Proofs.Host.Run
import Mathlib.Data.List.Induction

namespace ChipEight

/-!
# Calls — the call stack holds the calls that no return has matched

A return matches the latest call that is not matched yet, as closing brackets match opening ones.
At every point of a run the return addresses on the stack are those of the unmatched calls, so that
a return continues after its own call, and the stack below a call is the same again when the return
that matches it was made.

* `openCalls` — the calls among steps that no return among them matches;
* `Machine.Path.stack_eq_openCalls` — the stack along a path;
* `openCalls_segment` — a call stays open until a return brings the depth back;
* `Host.stack_matches_calls` — the stack, the returns and the segments of a run.
-/

/-! ### Matching calls and returns -/

/-- The unmatched calls after one more step. -/
def Executed.bracket (calls : List Executed) (e : Executed) : List Executed :=
  match e.instruction with
  | .call _ => calls ++ [e]
  | .ret => calls.dropLast
  | _ => calls

/-- The calls among steps that no return matches, oldest first. -/
def openCalls (steps : List Executed) : List Executed :=
  steps.foldl Executed.bracket []

/-- The address after the word of a step. -/
def Executed.returnAddress (e : Executed) : UInt16 :=
  e.before.pc + 2

variable {steps pre mid : List Executed} {e c r : Executed} {a : UInt16}

@[simp] theorem openCalls_nil : openCalls [] = [] := rfl

theorem openCalls_concat : openCalls (steps ++ [e]) = e.bracket (openCalls steps) := by
  rw [openCalls, List.foldl_append]
  rfl

theorem openCalls_call (h : e.instruction = .call a) :
    openCalls (steps ++ [e]) = openCalls steps ++ [e] := by
  rw [openCalls_concat, Executed.bracket, h]

theorem openCalls_ret (h : e.instruction = .ret) :
    openCalls (steps ++ [e]) = (openCalls steps).dropLast := by
  rw [openCalls_concat, Executed.bracket, h]

theorem openCalls_other (hc : ∀ a, e.instruction ≠ .call a) (hr : e.instruction ≠ .ret) :
    openCalls (steps ++ [e]) = openCalls steps := by
  rw [openCalls_concat, Executed.bracket]
  cases hi : e.instruction
  case call a => exact absurd hi (hc a)
  case ret => exact absurd hi hr
  all_goals rfl

/-- A call stays open, with everything below it, as long as no return brings the number of open
calls back to what it was before the call. -/
theorem openCalls_segment (hc : c.instruction = .call a)
    (hmid : ∀ mid₁ e mid₂, mid = mid₁ ++ e :: mid₂ → e.instruction = .ret →
      (openCalls (pre ++ c :: mid₁ ++ [e])).length ≠ (openCalls pre).length) :
    ∃ inner, openCalls (pre ++ c :: mid) = openCalls pre ++ c :: inner := by
  induction mid using List.reverseRecOn with
  | nil => exact ⟨[], openCalls_call hc⟩
  | append_singleton mid e ih =>
    obtain ⟨inner, hi⟩ := ih fun mid₁ e' mid₂ h =>
      hmid mid₁ e' (mid₂ ++ [e]) (by rw [h, List.append_assoc, List.cons_append])
    rw [← List.cons_append, ← List.append_assoc]
    by_cases hcall : ∃ b, e.instruction = .call b
    · obtain ⟨b, hb⟩ := hcall
      exact ⟨inner ++ [e], by rw [openCalls_call hb, hi]; simp⟩
    · by_cases hret : e.instruction = .ret
      · -- the return matches a call inside, or else the depth would be back
        have hne := hmid mid e [] rfl hret
        rw [openCalls_ret hret, hi] at hne ⊢
        rcases List.eq_nil_or_concat inner with rfl | ⟨inner', d, rfl⟩
        · simp at hne
        · exact ⟨inner', by
            rw [List.concat_eq_append, ← List.cons_append, ← List.append_assoc,
              List.dropLast_concat]⟩
      · exact ⟨inner, by rw [openCalls_other (fun b hb => hcall ⟨b, hb⟩) hret, hi]⟩

/-! ### The stack along a path -/

namespace Machine

variable {start m : Machine} {es : List Event}

/-- Along a path from a machine with no call in progress, the stack is within its capacity and holds
the return addresses of the open calls. -/
theorem Path.stack_eq_openCalls (hs : start.stack = .empty) (hp : start.Path es m) :
    m.stack.depth ≤ 16 ∧ m.stack.toList = (openCalls (executed es)).map Executed.returnAddress := by
  refine hp.induction (P := fun steps m => m.stack.depth ≤ 16
    ∧ m.stack.toList = (openCalls steps).map Executed.returnAddress) ?_ ?_ ?_
  · rw [hs]
    exact ⟨Nat.zero_le _, rfl⟩
  · rintro steps m m' outcome ⟨hd, hl⟩ h
    refine ⟨depth_le_of_step h hd, ?_⟩
    by_cases hcall : ∃ a, Instruction.decode m.fetched = .call a
    · obtain ⟨a, ha⟩ := hcall
      rw [openCalls_call (e := ⟨m, outcome, m'⟩) ha, (toList_of_step_call h ha).1, hl,
        List.map_append]
      rfl
    · by_cases hret : Instruction.decode m.fetched = .ret
      · rw [openCalls_ret (e := ⟨m, outcome, m'⟩) hret, List.map_dropLast, ← hl,
          (toList_of_step_ret h hret hd).1, List.dropLast_concat]
      · rw [openCalls_other (e := ⟨m, outcome, m'⟩) (fun a ha => hcall ⟨a, ha⟩) hret,
          stack_of_step h (fun a ha => hcall ⟨a, ha⟩) hret]
        exact hl
  · rintro steps m a ⟨hd, hl⟩
    rw [stack_act]
    exact ⟨hd, hl⟩

/-- The stack before and after each step of a path. -/
theorem Path.stack_of_executed (hs : start.stack = .empty) (hp : start.Path es m)
    {post : List Executed} (he : executed es = pre ++ e :: post) :
    e.before.step = .ok (e.outcome, e.after)
      ∧ e.before.stack.depth = (openCalls pre).length
      ∧ e.before.stack.toList = (openCalls pre).map Executed.returnAddress
      ∧ e.after.stack.depth = (openCalls (pre ++ [e])).length
      ∧ e.after.stack.toList = (openCalls (pre ++ [e])).map Executed.returnAddress := by
  obtain ⟨es₀, rfl, hp₀, hstep⟩ := hp.exists_before he
  obtain ⟨hd, hl⟩ := hp₀.stack_eq_openCalls hs
  obtain ⟨hd', hl'⟩ := (hp₀.step hstep).stack_eq_openCalls hs
  rw [executed_append] at hl'
  refine ⟨hstep, ?_, hl, ?_, hl'⟩
  · rw [← CallStack.length_toList hd, hl, List.length_map]
  · rw [← CallStack.length_toList hd', hl', List.length_map]
    rfl

/-- A return in a path continues after the word of the latest open call. -/
theorem Path.pc_of_ret (hs : start.stack = .empty) (hp : start.Path es m)
    {post : List Executed} (he : executed es = pre ++ e :: post) (hi : e.instruction = .ret) :
    ∃ calls c, openCalls pre = calls ++ [c] ∧ e.after.pc = c.returnAddress := by
  obtain ⟨hstep, hdepth, hbefore, -, hafter⟩ := hp.stack_of_executed hs he
  have hd : e.before.stack.depth ≤ 16 := by
    obtain ⟨es₀, -, hp₀, -⟩ := hp.exists_before he
    exact (hp₀.stack_eq_openCalls hs).1
  obtain ⟨hlist, -⟩ := toList_of_step_ret hstep hi hd
  rw [hbefore] at hlist
  rcases List.eq_nil_or_concat (openCalls pre) with hnil | ⟨calls, c, hcalls⟩
  · rw [hnil] at hlist
    simp at hlist
  · rw [List.concat_eq_append] at hcalls
    refine ⟨calls, c, hcalls, ?_⟩
    rw [hcalls, List.map_append] at hlist
    have hlast := (List.append_inj' hlist rfl).2
    exact (List.head_eq_of_cons_eq hlast).symm

/-- A return that brings the depth back to what it was before a call, and is the first to do so,
leaves the stack as it was before the call and continues after the word of the call. -/
theorem Path.stack_of_segment (hs : start.stack = .empty) (hp : start.Path es m)
    {post : List Executed} (he : executed es = pre ++ c :: (mid ++ r :: post))
    (hc : c.instruction = .call a) (hr : r.instruction = .ret)
    (hback : r.after.stack.depth = c.before.stack.depth)
    (hfirst : ∀ e ∈ mid, e.instruction = .ret → e.after.stack.depth ≠ c.before.stack.depth) :
    r.after.stack.toList = c.before.stack.toList ∧ r.after.pc = c.returnAddress := by
  obtain ⟨-, hcd, hcl, -, -⟩ := hp.stack_of_executed hs he
  have her : executed es = (pre ++ c :: mid) ++ r :: post := by simpa using he
  obtain ⟨-, -, -, hrd, hrl⟩ := hp.stack_of_executed hs her
  have hmid : ∀ mid₁ e mid₂, mid = mid₁ ++ e :: mid₂ → e.instruction = .ret →
      (openCalls (pre ++ c :: mid₁ ++ [e])).length ≠ (openCalls pre).length := by
    intro mid₁ e mid₂ hm hret
    have hee : executed es = (pre ++ c :: mid₁) ++ e :: (mid₂ ++ r :: post) := by
      simpa [hm] using he
    obtain ⟨-, -, -, hed, -⟩ := hp.stack_of_executed hs hee
    rw [← hed, ← hcd]
    exact hfirst e (by rw [hm]; simp) hret
  obtain ⟨inner, hi⟩ := openCalls_segment hc hmid
  -- the depth is back, so no call inside is still open
  have hinner : inner = [] := by
    rw [openCalls_ret hr, hi, List.length_dropLast, List.length_append, List.length_cons] at hrd
    have : inner.length = 0 := by omega
    exact List.eq_nil_of_length_eq_zero this
  rw [hinner] at hi
  refine ⟨?_, ?_⟩
  · rw [hrl, hcl, openCalls_ret hr, hi, List.dropLast_concat]
  · obtain ⟨calls, d, hd, hpc⟩ := hp.pc_of_ret hs her hr
    rw [hi] at hd
    rw [hpc, List.head_eq_of_cons_eq (List.append_inj' hd rfl).2]

end Machine

/-! ### Runs of a new machine -/

namespace Host

/-- **The stack matches the calls.** In a run of a new machine, whatever else is done to it, the
stack holds the addresses after those calls that no return has matched, oldest first, and so it does
before every step; a return continues after the word of the call that it matches; and from a call to
the first return that brings the depth back, the addresses stored below are the same before and
after. -/
theorem stack_matches_calls {seed : UInt64} {n : Nat} {es : List Event} {h : Host}
    (hr : (ofSeed seed n).Run es h) :
    h.machine.stack.toList = (openCalls (executed es)).map Executed.returnAddress
    ∧ (∀ (pre post : List Executed) (e : Executed), executed es = pre ++ e :: post →
        e.before.stack.toList = (openCalls pre).map Executed.returnAddress)
    ∧ (∀ (pre post : List Executed) (e : Executed), executed es = pre ++ e :: post →
        e.instruction = .ret →
        ∃ (calls : List Executed) (c : Executed), openCalls pre = calls ++ [c]
          ∧ e.after.pc = c.returnAddress)
    ∧ (∀ (pre mid post : List Executed) (c r : Executed) (a : UInt16),
        executed es = pre ++ c :: (mid ++ r :: post) →
        c.instruction = .call a → r.instruction = .ret →
        r.after.stack.depth = c.before.stack.depth →
        (∀ e ∈ mid, e.instruction = .ret → e.after.stack.depth ≠ c.before.stack.depth) →
        c.before.stack.toList.length = c.before.stack.depth
        ∧ r.after.stack.toList = c.before.stack.toList
        ∧ r.after.pc = c.returnAddress) := by
  have hs : (ofSeed seed n).machine.stack = .empty := rfl
  refine ⟨(hr.path.stack_eq_openCalls hs).2, ?_, ?_, ?_⟩
  · intro pre post e he
    exact (hr.path.stack_of_executed hs he).2.2.1
  · intro pre post e he hi
    exact hr.path.pc_of_ret hs he hi
  · intro pre mid post c r a he hc hret hback hfirst
    obtain ⟨-, hdepth, hlist, -, -⟩ := hr.path.stack_of_executed hs he
    refine ⟨?_, hr.path.stack_of_segment hs he hc hret hback hfirst⟩
    rw [hlist, List.length_map, hdepth]

/-- A program that calls the address four bytes on, where a return stands. -/
def callAndReturn : Array UInt8 := #[0x22, 0x04, 0x00, 0x00, 0x00, 0xEE]

theorem stack_matches_calls_callAndReturn :
    ∃ c r h, (ofSeed 0 10).Run [.action (.load callAndReturn), .step c, .step r] h
      ∧ c.instruction = .call 0x204 ∧ r.instruction = .ret
      ∧ r.after.stack.toList = c.before.stack.toList ∧ r.after.pc = c.returnAddress := by
  let m₁ : Machine :=
    { Machine.ofSeed 0 with memory := Memory.initial.overlay callAndReturn, programSize := 6 }
  let m₂ : Machine :=
    { m₁.fetch with pc := 0x204, stack := ⟨m₁.stack.slots.set 0 0x202, 1⟩ }.countDown
  let m₃ : Machine := { m₂.fetch with pc := 0x202, stack := ⟨m₂.stack.slots, 0⟩ }.countDown
  have hcall : Instruction.decode m₁.fetched = .call 0x204 := by
    rw [Machine.fetched_overlay (m := m₁) (k := 0) rfl rfl (by decide) rfl rfl]
    decide
  have hret : Instruction.decode m₂.fetched = .ret := by
    rw [Machine.fetched_overlay (m := m₂) (k := 4) rfl rfl (by decide) rfl rfl]
    decide
  have hstep₁ : m₁.step = .ok (.proceeded, m₂) := by rw [Machine.step, hcall]; rfl
  have hstep₂ : m₂.step = .ok (.proceeded, m₃) := by rw [Machine.step, hret]; rfl
  let h₁ : Host := { ofSeed 0 10 with machine := m₁, journal := ⟨#[], #[], #[.loaded 6]⟩ }
  have hr₁ : (ofSeed 0 10).Run [.action (.load callAndReturn)] h₁ :=
    Run.nil.perform (a := .load callAndReturn) rfl
  have hr₃ := (hr₁.step hstep₁).step hstep₂
  have hseg := (stack_matches_calls hr₃).2.2.2 [] [] [] ⟨m₁, .proceeded, m₂⟩
    ⟨m₂, .proceeded, m₃⟩ 0x204 rfl hcall hret rfl (by simp)
  exact ⟨_, _, _, hr₃, hcall, hret, hseg.2⟩

end Host

end ChipEight
