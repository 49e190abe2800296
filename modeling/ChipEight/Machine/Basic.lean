import ChipEight.CallStack
import ChipEight.Keypad
import ChipEight.Machine.Registers
import ChipEight.Memory
import ChipEight.Random.Stream
import ChipEight.Screen

namespace ChipEight

/-!
# Machine — the whole state of a virtual machine

* `Machine` — the state, and `Machine.fresh`, `Machine.ofSeed`, `Machine.ofKey` — a new one;
* `Machine.isRunning` — whether the next instruction belongs to a run;
* `Machine.halt`, `Machine.resume`, `Machine.togglePause` — the host's switch;
* `Machine.countDown` — one count of both timers;
* `Machine.clearDrawFlag`, `Machine.takeDrawFlag` — telling the machine that the screen was shown.
-/

/-- The state of a virtual machine. -/
structure Machine where
  /-- The bytes that programs and data live in. -/
  memory : Memory
  /-- The picture drawn so far. -/
  screen : Screen
  /-- The address of the next word. -/
  pc : UInt16
  /-- The address that instructions on memory work at. -/
  index : UInt16
  /-- The general registers. -/
  registers : Registers
  /-- The return addresses of the calls in progress. -/
  stack : CallStack
  /-- Counts down to zero, one count a step. -/
  delay : UInt8
  /-- Counts down to zero, one count a step; the machine beeps until it is there. -/
  sound : UInt8
  /-- The keys, moved by the host. -/
  keypad : Keypad
  /-- The word of the last step. -/
  word : UInt16
  /-- Whether something was drawn that the host has not shown. -/
  drawFlag : Bool
  /-- The host's switch. -/
  running : Bool
  /-- The length of the program in bytes. -/
  programSize : Nat
  /-- Where random bytes come from. -/
  random : Random.Stream
deriving DecidableEq, Repr

namespace Machine

/-- A new machine: no program, its random bytes from a stream. -/
def fresh (random : Random.Stream) : Machine where
  memory := .initial
  screen := .blank
  pc := UInt16.ofNat Memory.programStart
  index := 0
  registers := .zero
  stack := .empty
  delay := 0
  sound := 0
  keypad := .released
  word := 0
  drawFlag := false
  running := true
  programSize := 0
  random := random

/-- A new machine, its random bytes fixed by a seed. -/
def ofSeed (seed : UInt64) : Machine :=
  fresh (.ofSeed seed)

/-- A new machine, its random bytes fixed by a key. -/
def ofKey (key : Random.Key) : Machine :=
  fresh (.ofKey key)

/-- Whether the switch is on and the next word stands before the end of the program. -/
def isRunning (m : Machine) : Bool :=
  decide (m.pc.toNat < Memory.programStart + m.programSize) && m.running

/-- Turns the switch off. -/
def halt (m : Machine) : Machine :=
  { m with running := false }

/-- Turns the switch on. -/
def resume (m : Machine) : Machine :=
  { m with running := true }

/-- Turns the switch over. -/
def togglePause (m : Machine) : Machine :=
  { m with running := !m.running }

/-- A timer one count later; at zero it stays. -/
def counted (t : UInt8) : UInt8 :=
  UInt8.ofNat (t.toNat - 1)

@[simp] theorem toNat_counted (t : UInt8) : (counted t).toNat = t.toNat - 1 := by
  have := t.toNat_lt
  simp only [counted, UInt8.toNat_ofNat']
  omega

/-- Both timers one count later. -/
def countDown (m : Machine) : Machine :=
  { m with delay := counted m.delay, sound := counted m.sound }

/-- Whether the machine beeps. -/
def beeps (m : Machine) : Bool :=
  decide (0 < m.sound.toNat)

/-- Takes the draw flag down. -/
def clearDrawFlag (m : Machine) : Machine :=
  { m with drawFlag := false }

/-- The draw flag, and the machine with the flag down. -/
def takeDrawFlag (m : Machine) : Bool × Machine :=
  (m.drawFlag, m.clearDrawFlag)

/-- The machine with another keypad. -/
def withKeypad (m : Machine) (p : Keypad) : Machine :=
  { m with keypad := p }

end Machine

end ChipEight
