import ChipEight.Proofs.Host.Run

namespace ChipEight

/-!
# Reports — entries, log, outcomes and counter tell of the same steps

A step is told to the observer, a word that is no instruction is put on record, the outcome goes
back to whoever asked for the step, and ticks count the words that are no instruction. All of it
follows from the list of steps: what is reported of a step is a function of that step alone.

* `Executed.entry` — what an observer has to be told of a step;
* `word_of_executed` — where the word of a step can be read off;
* `Journal.Reports` — a journal with the reports of steps added to it;
* `Host.reports_of_perform`, `Host.reports_of_crash` — one action;
* `Host.journalAfter`, `Host.reports_journalAfter` — a whole session;
* `Host.reports_agree` — the reports of a session, compared with each other.
-/

/-! ### Reports of a step -/

/-- What an observer has to be told of a step: the address and the word that was fetched there, and
the instruction of the word unless the step passed the word over. -/
def Executed.entry (e : Executed) : TraceEntry :=
  match e.outcome with
  | .unknown w => .unknown e.before.pc w
  | _ => .instruction e.before.pc e.before.fetched e.instruction

/-- The entry that a host makes of a step. -/
def Executed.told (e : Executed) : TraceEntry :=
  .ofWord e.before.pc e.before.fetched

/-- The record of a step that passed a word over. -/
def Executed.record? (e : Executed) : Option LogRecord :=
  match e.outcome with
  | .unknown w => some (.unknown e.before.pc w)
  | _ => none

/-- The record of an entry whose word is no instruction. -/
def TraceEntry.record? : TraceEntry → Option LogRecord
  | .instruction .. => none
  | .unknown pc w => some (.unknown pc w)

/-- Whether a record comes from where instructions are executed. -/
def LogRecord.isExecution (r : LogRecord) : Bool :=
  decide (r.level = .debug) && decide (r.target = "chip8_interp::execute")

/-- Whether a text names a word and the address where it stands, in digits of base sixteen. -/
def Names (text : String) (w pc : UInt16) : Prop :=
  ∃ word address : List Char,
    text = "unknown opcode 0x" ++ String.ofList word ++ (" at 0x" ++ String.ofList address)
    ∧ (∀ c ∈ word ++ address, (Hex.digitValue? c).isSome = true)
    ∧ Hex.value word = w.toNat ∧ Hex.value address = pc.toNat

theorem names_message (pc w : UInt16) : Names (LogRecord.unknown pc w).message w pc := by
  refine ⟨Hex.padded 4 w.toNat, Hex.padded 3 pc.toNat, ?_, ?_, Hex.value_padded _ _,
    Hex.value_padded _ _⟩
  · calc (LogRecord.unknown pc w).message
        = "unknown opcode " ++ ("0x" ++ Hex.text 4 w.toNat) ++ " at "
          ++ ("0x" ++ Hex.text 3 pc.toNat) := rfl
      _ = "unknown opcode " ++ "0x" ++ Hex.text 4 w.toNat
          ++ (" at " ++ "0x" ++ Hex.text 3 pc.toNat) := by simp only [String.append_assoc]
  · intro c hc
    rcases List.mem_append.1 hc with h | h <;> exact Hex.isSome_of_mem_padded h

/-- The entry that a host makes of a step is the one that the outcome asks for. -/
theorem entry_eq_told {e : Executed} (h : e.before.step = .ok (e.outcome, e.after)) :
    e.entry = e.told := by
  have hiff : ∀ w, e.outcome = .unknown w ↔ e.instruction = .unknown w := fun w =>
    Machine.outcome_of_step h
  unfold Executed.entry Executed.told TraceEntry.ofWord
  split
  case h_1 w ho =>
    rw [show Instruction.decode e.before.fetched = .unknown w from (hiff w).1 ho]
  case h_2 hknown =>
    split
    case h_1 w hi => exact absurd ((hiff w).2 hi) (hknown w)
    case h_2 => rfl

/-- The word of a step, as it lay in memory and as it can be read off afterwards: from the machine
after the step, from the outcome, and, if the step passed the word over, from the counter. -/
theorem word_of_executed {e : Executed} (h : e.before.step = .ok (e.outcome, e.after)) :
    e.before.fetched.toNat = (e.before.memory.read e.before.pc).toNat * 256
        + (e.before.memory.read (e.before.pc + 1)).toNat
      ∧ e.after.word = e.before.fetched
      ∧ (∀ w, e.outcome = .unknown w ↔ e.instruction = .unknown w)
      ∧ (∀ w, e.outcome = .unknown w → w = e.before.fetched ∧ e.after.pc - 2 = e.before.pc) := by
  refine ⟨?_, Machine.word_of_step h, fun w => Machine.outcome_of_step h, ?_⟩
  · have := (e.before.memory.read e.before.pc).toNat_lt
    have := (e.before.memory.read (e.before.pc + 1)).toNat_lt
    rw [Machine.fetched, Memory.word, UInt16.toNat_ofNat']
    omega
  · intro w hw
    rw [hw] at h
    obtain ⟨hword, hpc⟩ := Machine.pc_of_step_unknown h
    rw [hpc]
    exact ⟨hword, UInt16.add_sub_cancel e.before.pc 2⟩

/-- The record of a step is the record of its entry. -/
theorem record?_entry (e : Executed) : e.entry.record? = e.record? := by
  unfold Executed.entry Executed.record?
  split <;> rfl

theorem isUnknown_entry (e : Executed) : e.entry.isUnknown = e.isUnknown := by
  unfold Executed.entry Executed.isUnknown
  cases e.outcome <;> rfl

/-! ### Reports in a journal -/

namespace Journal

/-- The records that come from where instructions are executed, in order. -/
def executionRecords (j : Journal) : List LogRecord :=
  j.records.toList.filter LogRecord.isExecution

/-- A journal is another one with the reports of steps added, as an observer that keeps every entry
and the log get them. -/
structure Reports (j : Journal) (steps : List Executed) (j' : Journal) : Prop where
  entries_eq : j'.entries.toList = j.entries.toList ++ steps.map Executed.told
  records_eq : j'.executionRecords = j.executionRecords ++ steps.filterMap Executed.record?

variable {j j' j'' : Journal} {steps later : List Executed}

theorem Reports.refl (j : Journal) : j.Reports [] j where
  entries_eq := by simp
  records_eq := by simp

/-- Reports of steps and then of later steps are reports of all of them. -/
theorem Reports.append (h : j.Reports steps j') (h' : j'.Reports later j'') :
    j.Reports (steps ++ later) j'' where
  entries_eq := by rw [h'.entries_eq, h.entries_eq, List.map_append, List.append_assoc]
  records_eq := by rw [h'.records_eq, h.records_eq, List.filterMap_append, List.append_assoc]

/-- A record from elsewhere is no report of a step. -/
theorem reports_report {r : LogRecord} (h : r.isExecution = false) (j : Journal) :
    j.Reports [] (j.report r) where
  entries_eq := by simp [report]
  records_eq := by simp [executionRecords, report, h]

/-- A picture is no report of a step. -/
theorem reports_paint (j : Journal) (s : Screen) : j.Reports [] (j.paint s) where
  entries_eq := by simp [paint]
  records_eq := by simp [executionRecords, paint]

theorem reports_recordStep (j : Journal) (e : Executed) :
    j.Reports [e] (j.recordStep (some .recordAll) e) where
  entries_eq := by
    have hr : (j.reportOutcome e.before.pc e.outcome).entries = j.entries := by
      cases e.outcome <;> rfl
    show ((j.reportOutcome e.before.pc e.outcome).entries.push e.told).toList = _
    rw [hr]
    simp
  records_eq := by
    show (j.reportOutcome e.before.pc e.outcome).records.toList.filter _ = _
    unfold reportOutcome Executed.record?
    cases ho : e.outcome with
    | unknown w =>
      have hx : (LogRecord.unknown e.before.pc w).isExecution = true := rfl
      simp [executionRecords, report, ho, hx]
    | _ => simp [executionRecords, ho]

/-- A step of a tick is reported as a step that was asked for, whether a picture follows or not. -/
theorem reports_recordTurn (j : Journal) (e : Executed) :
    j.Reports [e] (j.recordTurn (some .recordAll) e) := by
  rw [recordTurn]
  split
  case isTrue =>
    have h := (j.reports_recordStep e).append
      ((j.recordStep (some .recordAll) e).reports_paint e.after.screen)
    rwa [List.append_nil] at h
  case isFalse => exact j.reports_recordStep e

theorem reports_recordTurns (j : Journal) (steps : List Executed) :
    j.Reports steps (steps.foldl (recordTurn (some .recordAll)) j) := by
  induction steps generalizing j with
  | nil => exact .refl j
  | cons e rest ih => exact (j.reports_recordTurn e).append (ih _)

end Journal

/-! ### Reports of an action -/

/-- The step of an event that is a step of a tick. -/
def Event.ticked? : Event → Option Executed
  | .turn e => some e
  | _ => none

/-- The step of an event that is a step that was asked for. -/
def Event.asked? : Event → Option Executed
  | .step e => some e
  | _ => none

/-- The outcome that a reply tells of a step. -/
def Reply.outcome? : Reply → Option StepOutcome
  | .stepped outcome => some outcome
  | _ => none

theorem filterMap_ticked?_map_turn (steps : List Executed) :
    (steps.map Event.turn).filterMap Event.ticked? = steps := by
  induction steps with
  | nil => rfl
  | cons e rest ih => exact congrArg (e :: ·) ih

theorem filterMap_asked?_map_turn (steps : List Executed) :
    (steps.map Event.turn).filterMap Event.asked? = [] := by
  induction steps with
  | nil => rfl
  | cons e rest ih => exact ih

namespace Host

variable {h h' : Host} {a : Action} {reply : Reply} {c : Crash}

/-- What an action that makes no step leaves as it is: the counter, the journal up to a record of a
load, and the observer unless it installs one. -/
theorem perform_fixed (hp : h.perform a = .ok (reply, h')) (hs : a ≠ .step) (ht : a ≠ .tick) :
    h'.unknownWords = h.unknownWords
      ∧ (h'.journal = h.journal ∨ ∃ size, h'.journal = h.journal.report (.loaded size))
      ∧ (h'.tracer = h.tracer ∨ a = .trace h'.tracer)
      ∧ reply.outcome? = none := by
  cases a
  case step => exact absurd rfl hs
  case tick => exact absurd rfl ht
  case load image =>
    simp only [perform, load, Except.ok.injEq] at hp
    split at hp
    case h_1 m hm => cases hp; exact ⟨rfl, .inr ⟨_, rfl⟩, .inl rfl, rfl⟩
    case h_2 e he => cases hp; exact ⟨rfl, .inl rfl, .inl rfl, rfl⟩
  case trace t => cases hp; exact ⟨rfl, .inl rfl, .inr rfl, rfl⟩
  case keys k => cases hp; cases k <;> exact ⟨rfl, .inl rfl, .inl rfl, rfl⟩
  all_goals (cases hp; exact ⟨rfl, .inl rfl, .inl rfl, rfl⟩)

/-- An action that succeeds reports its steps: to the observer and the log in its journal, to the
counter those of a tick, and in its reply the outcome of one that was asked for. -/
theorem reports_of_perform (hp : h.perform a = .ok (reply, h'))
    (hw : h.tracer = some .recordAll) (ha : ∀ t, a = .trace t → t = some .recordAll) :
    h'.tracer = some .recordAll
      ∧ h.journal.Reports (executed (h.events a)) h'.journal
      ∧ h'.unknownWords
        = h.unknownWords + ((h.events a).filterMap Event.ticked?).countP Executed.isUnknown
      ∧ reply.outcome?.toList = ((h.events a).filterMap Event.asked?).map Executed.outcome := by
  rcases perform_cases hp with ⟨outcome, m, rfl, hm, rfl⟩ | ⟨outcome, rfl, ht⟩ | ⟨hs, ht⟩
  · -- a step that was asked for
    have he : h.events .step = [.step ⟨h.machine, outcome, m⟩] := by rw [events, hm]
    rw [perform_step hm] at hp
    cases hp
    rw [he, hw]
    exact ⟨rfl, Journal.reports_recordStep _ _, rfl, rfl⟩
  · -- a tick
    obtain ⟨m, hm⟩ : ∃ m, h.machine.afterTurns h.stepsPerTick = .ok m := ⟨_, machine_of_tick ht⟩
    have he : h.events .tick = (h.machine.turns h.stepsPerTick).map .turn := rfl
    rw [perform, show h.tick = _ from tick_of_ok hm] at hp
    cases hp
    rw [he, executed_map_turn, filterMap_ticked?_map_turn, filterMap_asked?_map_turn]
    refine ⟨hw, ?_, rfl, rfl⟩
    have hr := h.journal.reports_recordTurns (h.machine.turns h.stepsPerTick)
    rw [← hw] at hr
    exact hr
  · -- an action that makes no step
    obtain ⟨hcount, hjournal, htracer, hreply⟩ := perform_fixed hp hs ht
    rw [(machine_of_perform hp hs ht).2, hreply]
    refine ⟨?_, ?_, hcount, rfl⟩
    · rcases htracer with hsame | hnew
      · exact hsame.trans hw
      · exact ha _ hnew
    · rcases hjournal with hsame | ⟨size, hload⟩
      · rw [hsame]
        exact .refl _
      · rw [hload]
        exact Journal.reports_report rfl _

/-- An action that crashes has reported the steps that it made. -/
theorem reports_of_crash (hp : h.perform a = .error c) (hw : h.tracer = some .recordAll) :
    h.journal.Reports (executed (h.events a)) c.journal := by
  cases a
  case step =>
    cases hm : h.machine.step with
    | ok r => rw [perform_step hm] at hp; cases hp
    | error f =>
      rw [perform, step_of_fault hm] at hp
      cases hp
      rw [events, hm]
      exact .refl _
  case tick =>
    cases hm : h.machine.afterTurns h.stepsPerTick with
    | ok m => rw [perform, show h.tick = _ from tick_of_ok hm] at hp; cases hp
    | error f =>
      rw [perform, show h.tick = _ from tick_of_error hm] at hp
      cases hp
      rw [events, executed_map_turn, hw]
      exact Journal.reports_recordTurns _ _
  all_goals cases hp

/-! ### Reports of a session -/

/-- The journal that a session leaves, whether it ends well or in a crash. -/
def journalAfter (h : Host) (actions : List Action) : Journal :=
  match h.performAll actions with
  | .ok (_, h') => h'.journal
  | .error c => c.journal

theorem journalAfter_of_perform {rest : List Action} (hp : h.perform a = .ok (reply, h')) :
    h.journalAfter (a :: rest) = h'.journalAfter rest := by
  rw [journalAfter, performAll_of_perform hp, journalAfter]
  cases h'.performAll rest <;> rfl

theorem journalAfter_of_crash {rest : List Action} (hp : h.perform a = .error c) :
    h.journalAfter (a :: rest) = c.journal := by
  rw [journalAfter, performAll_of_crash hp]

/-- The journal of a session has the reports of its steps, those before a crash included. -/
theorem reports_journalAfter {actions : List Action} (hw : h.tracer = some .recordAll)
    (ha : ∀ t, Action.trace t ∈ actions → t = some .recordAll) :
    h.journal.Reports (executed (h.trail actions)) (h.journalAfter actions) := by
  induction actions generalizing h with
  | nil => exact .refl _
  | cons a rest ih =>
    have hrest : ∀ t, Action.trace t ∈ rest → t = some .recordAll := fun t ht =>
      ha t (List.mem_cons_of_mem a ht)
    cases hp : h.perform a with
    | error c =>
      rw [trail, hp, journalAfter_of_crash hp]
      exact reports_of_crash hp hw
    | ok r =>
      obtain ⟨htracer, hreports, -, -⟩ := reports_of_perform hp hw fun t ht =>
        ha t (ht ▸ List.mem_cons_self)
      rw [trail, hp, journalAfter_of_perform hp, executed_append]
      exact hreports.append (ih htracer hrest)

/-- The counter and the replies of a session tell of its steps: the counter of those of its ticks,
the replies of those that were asked for. -/
theorem count_of_performAll {actions : List Action} {replies : List Reply}
    (hp : h.performAll actions = .ok (replies, h')) (hw : h.tracer = some .recordAll)
    (ha : ∀ t, Action.trace t ∈ actions → t = some .recordAll) :
    h'.unknownWords
        = h.unknownWords + ((h.trail actions).filterMap Event.ticked?).countP Executed.isUnknown
      ∧ replies.filterMap Reply.outcome?
        = ((h.trail actions).filterMap Event.asked?).map Executed.outcome := by
  induction actions generalizing h replies with
  | nil =>
    cases hp
    exact ⟨rfl, rfl⟩
  | cons a rest ih =>
    obtain ⟨reply, h₁, later, hfirst, hrest, rfl⟩ := exists_of_performAll_cons hp
    obtain ⟨htracer, -, hcount, hreply⟩ := reports_of_perform hfirst hw fun t ht =>
      ha t (ht ▸ List.mem_cons_self)
    obtain ⟨hcount', hlater⟩ := ih hrest htracer fun t ht => ha t (List.mem_cons_of_mem a ht)
    have htrail : h.trail (a :: rest) = h.events a ++ h₁.trail rest := by rw [trail, hfirst]
    rw [htrail, List.filterMap_append, List.filterMap_append, List.countP_append, List.map_append,
      ← hreply, ← hlater, hcount', hcount, Nat.add_assoc]
    refine ⟨rfl, ?_⟩
    cases ho : reply.outcome? <;> simp [ho]

/-- A host for a machine, with an observer that keeps every entry. -/
def watched (m : Machine) (stepsPerTick : Nat) : Host :=
  { ofMachine m stepsPerTick with tracer := some .recordAll }

/-- **Reports agree.** In a session under an observer that keeps every entry from its beginning on,
also when it ends in a crash:

* the entries are those of the steps that were completed, in order, one for each;
* the word of a step is the one that lay in memory at the counter before the step, high byte first,
  and is still at hand after it; the outcome tells of a word that is no instruction exactly when the
  word decodes to none, and then of that word, and the address before the step is two less than the
  counter after it;
* the records from where instructions are executed are those of the entries whose word is no
  instruction, in order, one for each, and their texts name the word and the address;
* after a session without a crash the counter is the number of such entries among those of the steps
  of ticks, and the replies tell the outcomes of the steps that were asked for. -/
theorem reports_agree (m : Machine) (n : Nat) {actions : List Action}
    (ha : ∀ t, Action.trace t ∈ actions → t = some .recordAll) :
    ((watched m n).journalAfter actions).entries.toList
        = (executed ((watched m n).trail actions)).map Executed.entry
    ∧ (∀ e ∈ executed ((watched m n).trail actions),
        e.before.step = .ok (e.outcome, e.after)
        ∧ e.before.fetched.toNat = (e.before.memory.read e.before.pc).toNat * 256
          + (e.before.memory.read (e.before.pc + 1)).toNat
        ∧ e.after.word = e.before.fetched
        ∧ (∀ w, e.outcome = .unknown w ↔ e.instruction = .unknown w)
        ∧ (∀ w, e.outcome = .unknown w → w = e.before.fetched ∧ e.after.pc - 2 = e.before.pc))
    ∧ ((watched m n).journalAfter actions).executionRecords
        = ((watched m n).journalAfter actions).entries.toList.filterMap TraceEntry.record?
    ∧ (∀ pc w, TraceEntry.record? (.unknown pc w) = some (.unknown pc w)
        ∧ Names (LogRecord.unknown pc w).message w pc)
    ∧ (∀ replies h', (watched m n).performAll actions = .ok (replies, h') →
        h'.unknownWords
          = ((((watched m n).trail actions).filterMap Event.ticked?).map Executed.entry).countP
            TraceEntry.isUnknown
        ∧ replies.filterMap Reply.outcome?
          = (((watched m n).trail actions).filterMap Event.asked?).map Executed.outcome) := by
  have hreports := reports_journalAfter (h := watched m n) rfl ha
  have hentries : ((watched m n).journalAfter actions).entries.toList
      = (executed ((watched m n).trail actions)).map Executed.entry := by
    have htold := hreports.entries_eq
    rw [show (watched m n).journal.entries.toList = [] from rfl, List.nil_append] at htold
    rw [htold]
    exact List.map_congr_left fun e he => (entry_eq_told (step_of_mem_trail he)).symm
  refine ⟨hentries, ?_, ?_, ?_, ?_⟩
  · intro e he
    exact ⟨step_of_mem_trail he, word_of_executed (step_of_mem_trail he)⟩
  · have hrecords := hreports.records_eq
    rw [show (watched m n).journal.executionRecords = [] from rfl, List.nil_append] at hrecords
    rw [hrecords, hentries, List.filterMap_map]
    exact congrArg (List.filterMap · _) (funext fun e => (record?_entry e).symm)
  · intro pc w
    exact ⟨rfl, names_message pc w⟩
  · intro replies h' hall
    obtain ⟨hcount, hreplies⟩ := count_of_performAll hall rfl ha
    refine ⟨?_, hreplies⟩
    rw [hcount, show (watched m n).unknownWords = 0 from rfl, Nat.zero_add, List.countP_map]
    exact congrArg (List.countP · _) (funext fun e => (isUnknown_entry e).symm)

/-- A program that sets a register and goes on with a word that is no instruction. -/
def setAndStray : Array UInt8 := #[0x60, 0x05, 0x00, 0x01]

theorem reports_agree_setAndStray :
    ∃ m, ((watched m 2).journalAfter [.trace (some .recordAll), .tick]).entries.toList
          = [.instruction 0x200 0x6005 (.set 0 5), .unknown 0x202 1]
      ∧ ((watched m 2).journalAfter [.trace (some .recordAll), .tick]).executionRecords
          = [.unknown 0x202 1] := by
  let m₁ : Machine :=
    { Machine.ofSeed 0 with memory := Memory.initial.overlay setAndStray, programSize := 4 }
  let m₂ : Machine := (m₁.fetch.put 0 5).countDown
  let m₃ : Machine := m₂.fetch.countDown
  have hset : m₁.fetched = 0x6005 := by
    rw [Machine.fetched_overlay (m := m₁) (k := 0) rfl rfl (by decide) rfl rfl]
    decide
  have hstray : m₂.fetched = 1 := by
    rw [Machine.fetched_overlay (m := m₂) (k := 2) rfl rfl (by decide) rfl rfl]
    decide
  have hstep₁ : m₁.step = .ok (.proceeded, m₂) := by
    rw [Machine.step, hset]
    rfl
  have hstep₂ : m₂.step = .ok (.unknown 1, m₃) := by
    rw [Machine.step, hstray]
    rfl
  have hturns : m₁.turns 2 = [⟨m₁, .proceeded, m₂⟩, ⟨m₂, .unknown 1, m₃⟩] := by
    have hrun₁ : m₁.isRunning = true := rfl
    have hrun₂ : m₂.clearDrawFlag.isRunning = true := rfl
    rw [Machine.turns_of_step hrun₁ hstep₁, Machine.turns_of_step hrun₂ hstep₂]
    rfl
  have htrail : ∀ m n, executed ((watched m n).trail [.trace (some .recordAll), .tick])
      = m.turns n := by
    intro m n
    show executed ((watched m n).trail [.tick]) = _
    rw [trail_singleton]
    exact executed_map_turn _
  have hentry : Executed.entry ⟨m₁, .proceeded, m₂⟩ = .instruction 0x200 0x6005 (.set 0 5) := by
    show TraceEntry.instruction m₁.pc m₁.fetched (.decode m₁.fetched) = _
    rw [hset]
    rfl
  have hobserver : ∀ t, Action.trace t ∈ [.trace (some .recordAll), .tick]
      → t = some .recordAll := by simp
  obtain ⟨hentries, -, hrecords, -⟩ := reports_agree m₁ 2 hobserver
  rw [htrail, hturns, List.map_cons, hentry] at hentries
  refine ⟨m₁, hentries, ?_⟩
  rw [hrecords, hentries]
  rfl

end Host

end ChipEight
