import ChipEight.CommandLine.Run
import ChipEight.Proofs.CommandLine.Requests
import ChipEight.Proofs.Host.Tick
import ChipEight.Proofs.Machine.Steps

namespace ChipEight.CommandLine

/-!
# Counted steps — a run of the command line is so many steps

A run makes ticks of so many steps each and can end early in two ways, inside a tick and between two
of them. Neither shows in what it leaves behind: exit code, output and message are those of stepping
the machine as long as it is running, as many times at most as there are steps in all the ticks
together.

* `Report.visible` — exit code, output and message of a report;
* `Options.output_eq` — what is printed of a machine;
* `Emulation.advance_eq_afterTurns` — ticks against turns of the machine;
* `Options.emulate_visible` — a run against counted steps;
* `visible_of_product` — the same for arguments, and for arguments with the same product.
-/

/-! ### What is left behind -/

/-- The exit code, the output and the message. -/
def Report.visible (r : Report) : Nat × String × Option String :=
  (r.code, r.output, r.text)

/-- What a request leaves behind when it steps a machine: of a fault its message, of a machine what
is printed of it. -/
def Options.ending (o : Options) : Except Fault Machine → Nat × String × Option String
  | .error f => (101, "", some f.message)
  | .ok m => (0, o.output m, none)

/-- The machine with keys pressed, one after the other. -/
def pressAll (m : Machine) (keys : List Nibble) : Machine :=
  m.withKeypad (keys.foldl Keypad.press m.keypad)

/-- What is printed are the picture and the texts of the registers, the memory and the screen. -/
theorem Options.output_eq (o : Options) (m : Machine) :
    o.output m = (if o.noFrame then "" else m.screen.text)
      ++ String.join (o.dump.map fun
        | .registers => m.registerText
        | .memory => m.memory.text
        | .video => m.screen.text) := by
  have hsnapshot : Options.snapshot m = fun
      | .registers => m.registerText
      | .memory => m.memory.text
      | .video => m.screen.text := by
    funext kind
    cases kind <;> rfl
  rw [output, hsnapshot]

/-- Nothing that is printed shows the draw flag. -/
theorem Options.output_clearDrawFlag (o : Options) (m : Machine) :
    o.output m.clearDrawFlag = o.output m := by
  rw [output_eq, output_eq]
  rfl

theorem Options.ending_map_clearDrawFlag (o : Options) (r : Except Fault Machine) :
    o.ending (r.map Machine.clearDrawFlag) = o.ending r := by
  cases r with
  | error f => rfl
  | ok m => exact congrArg (fun text => (0, text, none)) (o.output_clearDrawFlag m)

/-! ### Ticks against turns -/

namespace Emulation

/-- Ticks leave the machine that as many turns leave as there are steps in all of them, or crash
with the fault that ends the turns. -/
theorem advance_eq_afterTurns (T : Nat) (e : Emulation) :
    ((advance T e).map (·.host.machine)).mapError Crash.fault
      = e.host.machine.afterTurns (T * e.host.stepsPerTick) := by
  induction T generalizing e with
  | zero =>
    rw [Nat.zero_mul]
    rfl
  | succ T ih =>
    rw [Nat.succ_mul, Nat.add_comm (T * _), Machine.afterTurns_add]
    cases hm : e.host.machine.afterTurns e.host.stepsPerTick with
    | error f =>
      have ht : e.host.tick = _ := Host.tick_of_error hm
      rw [advance, ht]
      rfl
    | ok m =>
      have ht : e.host.tick = _ := Host.tick_of_ok hm
      rw [advance, ht]
      cases hr : m.isRunning with
      | false =>
        -- the machine stopped in this tick, and the turns that are left do nothing
        exact (Machine.afterTurns_of_stopped hr).symm
      | true => exact ih _

end Emulation

/-! ### Requests -/

namespace Options

variable {o : Options} {image : Array UInt8} {seed : Nat}

/-- A request about a program that fits starts with the program in place and the keys down. -/
theorem exists_host {m : Machine} (hs : o.seed = some seed)
    (hm : (Machine.ofSeed (UInt64.ofNat seed)).load image = .ok m) (entropy : Random.Key) :
    ∃ h, o.host entropy image = .ok h ∧ h.machine = pressAll m o.hold
      ∧ h.stepsPerTick = o.stepsPerTick := by
  have hh : o.host entropy image = .ok
      { Host.ofMachine (pressAll m o.hold) o.stepsPerTick with
        tracer := if o.trace then some .log else none
        journal := Journal.empty.report (.loaded image.size) } := by
    simp only [host, machine, hs, hm]
    rfl
  exact ⟨_, hh, rfl, rfl⟩

/-- A run leaves behind what the counted steps do. -/
theorem emulate_visible {m : Machine} (hs : o.seed = some seed)
    (hm : (Machine.ofSeed (UInt64.ofNat seed)).load image = .ok m) (filter : LogFilter)
    (entropy : Random.Key) :
    (o.emulate filter entropy image).visible
      = o.ending ((pressAll m o.hold).run (o.ticks * o.stepsPerTick)) := by
  obtain ⟨h, hh, hstart, hpace⟩ := exists_host hs hm entropy
  have hsteps := Emulation.advance_eq_afterTurns o.ticks ⟨h, 0, 0⟩
  rw [hpace, hstart] at hsteps
  rw [← ending_map_clearDrawFlag, ← Machine.afterTurns_eq_run, ending_map_clearDrawFlag, ← hsteps,
    emulate, hh]
  cases ha : Emulation.advance o.ticks ⟨h, 0, 0⟩ with
  | error c => simp only [ha]; rfl
  | ok e => simp only [ha]; rfl

end Options

/-! ### Arguments -/

variable {arguments : List String} {items : List Item} {o : Options} {seed : Nat}
  {image : Array UInt8} {readFile : String → Except FileError (Array UInt8)}

/-- Arguments that ask for a run with a seed leave behind what the counted steps do. -/
theorem run_visible {m : Machine} (hw : Written items arguments) (ho : o.AskedBy items)
    (hseed : o.seed = some seed) (hfile : readFile o.path = .ok image)
    (hm : (Machine.ofSeed (UInt64.ofNat seed)).load image = .ok m) (logSetting : Option String)
    (entropy : Random.Key) :
    (run arguments logSetting entropy readFile).visible
      = o.ending ((pressAll m o.hold).run (o.ticks * o.stepsPerTick)) := by
  simp only [run, runWith, Options.read_eq_ok_iff.2 ⟨items, hw, ho⟩, Options.run, hfile]
  exact Options.emulate_visible hseed hm _ _

/-- **A run is so many steps.** Arguments that are written as items, and ask with them for a run
with a seed, of a file with a program that fits, leave behind what the steps of a running machine
do, as many at most as the ticks and the steps of a tick have for a product: a seeded machine with
the program loaded and the keys pressed. If a step fails, that is its message, with the exit code
101 and no output; otherwise it is the picture, unless it is refused, and then the text of the
registers, the memory or the screen for each snapshot, in the order of the snapshots.
Arguments that ask for the same but for other ticks and other steps of a tick, with the same
product, leave the same exit code, output and message behind. -/
theorem visible_of_product (hw : Written items arguments) (ho : o.AskedBy items)
    (hseed : o.seed = some seed) (hfile : readFile o.path = .ok image) (hpos : 0 < image.size)
    (hmax : image.size ≤ 3584) (logSetting : Option String) (entropy : Random.Key) :
    (∃ m, (Machine.ofSeed (UInt64.ofNat seed)).load image = .ok m
      ∧ (run arguments logSetting entropy readFile).visible
        = match (pressAll m o.hold).run (o.ticks * o.stepsPerTick) with
          | .error f => (101, "", some f.message)
          | .ok m' =>
            (0, (if o.noFrame then "" else m'.screen.text)
              ++ String.join (o.dump.map fun
                | .registers => m'.registerText
                | .memory => m'.memory.text
                | .video => m'.screen.text), none))
    ∧ ∀ items' arguments' ticks stepsPerTick logSetting' entropy',
        Written items' arguments' →
        Options.AskedBy { o with ticks := ticks, stepsPerTick := stepsPerTick } items' →
        ticks * stepsPerTick = o.ticks * o.stepsPerTick →
        (run arguments' logSetting' entropy' readFile).visible
          = (run arguments logSetting entropy readFile).visible := by
  obtain ⟨m, hm⟩ : ∃ m, (Machine.ofSeed (UInt64.ofNat seed)).load image = .ok m :=
    ⟨_, Machine.load_eq_ok_iff.2 ⟨⟨hpos, hmax⟩, rfl⟩⟩
  have hvisible := run_visible hw ho hseed hfile hm logSetting entropy
  refine ⟨⟨m, hm, ?_⟩, ?_⟩
  · rw [hvisible]
    cases (pressAll m o.hold).run (o.ticks * o.stepsPerTick) with
    | error f => rfl
    | ok m' => exact congrArg (fun text => (0, text, none)) (o.output_eq m')
  · intro items' arguments' ticks stepsPerTick logSetting' entropy' hw' ho' hproduct
    rw [run_visible hw' ho' hseed hfile hm logSetting' entropy', hvisible, hproduct]
    rfl

/-- The report of arguments where every file holds the same bytes. -/
def runOn (image : Array UInt8) (logSetting : Option String) (arguments : List String) : Report :=
  run arguments logSetting (Random.keyOfSeed 7) fun _ => .ok image

/-- A program that draws the glyph of zero and then returns from no call. -/
def drawAndReturn : Array UInt8 := #[0xD0, 0x05, 0x00, 0xEE]

theorem run_drawAndReturn {m m₁ : Machine} (h : m.load drawAndReturn = .ok m₁)
    (hpc : m.pc = 0x200) (hstack : m.stack = .empty) (hon : m.running = true) :
    m₁.run 2 = .error .returnWithoutCall := by
  obtain ⟨-, hload⟩ := Machine.load_eq_ok_iff.1 h
  have hmem : m₁.memory = m.memory.overlay drawAndReturn := congrArg Machine.memory hload
  have hsize : m₁.programSize = 4 := congrArg Machine.programSize hload
  have hpc₁ : m₁.pc = 0x200 := (congrArg Machine.pc hload).trans hpc
  have hon₁ : m₁.running = true := (congrArg Machine.running hload).trans hon
  have hstack₁ : m₁.stack = .empty := (congrArg Machine.stack hload).trans hstack
  let m₂ : Machine := (m₁.fetch.draw 0 0 5).countDown
  have hpc₂ : m₂.pc = 0x202 := congrArg (· + 2) hpc₁
  have hdraw : Instruction.decode m₁.fetched = .draw 0 0 5 := by
    rw [Machine.fetched_overlay (k := 0) hmem hpc₁ (by decide) rfl rfl]
    decide
  have hret : Instruction.decode m₂.fetched = .ret := by
    rw [Machine.fetched_overlay (m := m₂) (k := 2) hmem hpc₂ (by decide) rfl rfl]
    decide
  have hempty : m₂.fetch.stack.pop? = none := by
    rw [show m₂.fetch.stack = .empty from hstack₁]
    rfl
  have hstep : m₁.step = .ok (.drew, m₂) := by
    rw [Machine.step, hdraw]
    rfl
  have hfault : m₂.step = .error .returnWithoutCall := by
    rw [Machine.step, hret, Machine.execute, hempty]
  have hgoes : m₁.isRunning = true := by
    rw [Machine.isRunning, hpc₁, hsize, hon₁]
    rfl
  have hgoes' : m₂.isRunning = true := by
    rw [Machine.isRunning, hpc₂, show m₂.programSize = 4 from hsize,
      show m₂.running = true from hon₁]
    rfl
  exact (Machine.run_of_step hgoes hstep).trans (Machine.run_of_fault hgoes' hfault)

/-- A program that waits for a key. -/
def waitForKey : Array UInt8 := #[0xF0, 0x0A]

/-- The program takes a key that is held and is over. -/
theorem run_waitForKey {m : Machine} {memory : Memory} {k : Nibble}
    (hmem : m.memory = memory.overlay waitForKey) (hsize : m.programSize = 2) (hpc : m.pc = 0x200)
    (hon : m.running = true) (hkey : m.keypad.firstDown = some k) (n : Nat) :
    m.run (n + 1) = .ok (m.fetch.put 0 (Nibble.toByte k)).countDown := by
  have hwait : Instruction.decode m.fetched = .awaitKey 0 := by
    rw [Machine.fetched_overlay (k := 0) hmem hpc (by decide) rfl rfl]
    decide
  have hstep : m.step = .ok (.proceeded, (m.fetch.put 0 (Nibble.toByte k)).countDown) := by
    rw [Machine.step, hwait, Machine.execute, show m.fetch.keypad.firstDown = some k from hkey]
  have hgoes : m.isRunning = true := by
    rw [Machine.isRunning, hpc, hsize, hon]
    rfl
  have hover : (m.fetch.put 0 (Nibble.toByte k)).countDown.isRunning = false := by
    rw [Machine.isRunning,
      show (m.fetch.put 0 (Nibble.toByte k)).countDown.pc = 0x202 from congrArg (· + 2) hpc,
      show (m.fetch.put 0 (Nibble.toByte k)).countDown.programSize = 2 from hsize]
    rfl
  exact (Machine.run_of_step hgoes hstep).trans (Machine.run_of_stopped hover)

/-- A step that fails is the second of one tick or the first of another. A program that waits takes
the key that is held and is over before the ticks are. -/
theorem visible_of_product_concrete :
    ((runOn drawAndReturn none ["p", "--seed=7", "-t1", "-s2"]).visible
        = (101, "", some "attempt to subtract with overflow")
      ∧ (runOn drawAndReturn none ["p", "--seed=7", "-t2", "-s1"]).visible
        = (101, "", some "attempt to subtract with overflow"))
    ∧ ∃ m m', (Machine.ofSeed 7).load waitForKey = .ok m
      ∧ (pressAll m [5]).run 6 = .ok m' ∧ m'.registers.get 0 = 5
      ∧ (runOn waitForKey none ["--hold", "5", "--dump=registers", "--no-frame", "p", "--dump",
          "video", "--seed=7", "-t3", "-s2"]).visible
        = (0, m'.registerText ++ m'.screen.text, none) := by
  constructor
  · let readFile : String → Except FileError (Array UInt8) := fun _ => .ok drawAndReturn
    have hfile : readFile "p" = .ok drawAndReturn := rfl
    have hread : Options.read ["p", "--seed=7", "-t1", "-s2"]
        = .ok ⟨"p", 1, 2, some 7, [], false, [], false⟩ := rfl
    have hread' : Options.read ["p", "--seed=7", "-t2", "-s1"]
        = .ok ⟨"p", 2, 1, some 7, [], false, [], false⟩ := rfl
    obtain ⟨items, hw, ho⟩ := Options.read_eq_ok_iff.1 hread
    obtain ⟨items', hw', ho'⟩ := Options.read_eq_ok_iff.1 hread'
    obtain ⟨⟨m, hm, hone⟩, htwo⟩ :=
      visible_of_product hw ho rfl hfile (by decide) (by decide) none (Random.keyOfSeed 7)
    have hsame := htwo items' _ 2 1 none (Random.keyOfSeed 7) hw' ho' rfl
    have hfault : (pressAll m []).run (1 * 2) = .error .returnWithoutCall :=
      run_drawAndReturn hm rfl rfl rfl
    rw [hfault] at hone
    exact ⟨hone, hsame.trans hone⟩
  · let readFile : String → Except FileError (Array UInt8) := fun _ => .ok waitForKey
    have hfile : readFile "p" = .ok waitForKey := rfl
    have hread : Options.read ["--hold", "5", "--dump=registers", "--no-frame", "p", "--dump",
          "video", "--seed=7", "-t3", "-s2"]
        = .ok ⟨"p", 3, 2, some 7, [5], false, [.registers, .video], true⟩ := rfl
    obtain ⟨items, hw, ho⟩ := Options.read_eq_ok_iff.1 hread
    obtain ⟨⟨m, hm, hvisible⟩, -⟩ :=
      visible_of_product hw ho rfl hfile (by decide) (by decide) none (Random.keyOfSeed 7)
    obtain ⟨-, hload⟩ := Machine.load_eq_ok_iff.1 hm
    have hkey : (pressAll m [5]).keypad.firstDown = some 5 := by
      rw [hload]
      decide
    have hrun : (pressAll m [5]).run 6 = .ok ((pressAll m [5]).fetch.put 0 5).countDown :=
      run_waitForKey (m := pressAll m [5]) (congrArg Machine.memory hload)
        (congrArg Machine.programSize hload) (congrArg Machine.pc hload)
        (congrArg Machine.running hload) hkey 5
    rw [show 3 * 2 = 6 from rfl, hrun] at hvisible
    exact ⟨m, _, hm, hrun, Bank.get_put_self, hvisible.trans (by simp [String.join])⟩

end ChipEight.CommandLine
