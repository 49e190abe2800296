import ChipEight.Host.Basic

namespace ChipEight

/-!
# Sessions — everything that can be done to a host, one thing after the other

* `Action`, `Reply` — what can be done, and what is answered;
* `Host.perform` — one action;
* `Host.performAll` — a session: actions in order, ended by the first crash.
-/

/-- What can be done to a host. -/
inductive Action where
  /-- Loads a program. -/
  | load (image : Array UInt8)
  /-- Makes one step, whether or not the machine is running. -/
  | step
  /-- Makes one tick. -/
  | tick
  /-- Moves the keys. -/
  | keys (m : Keypad.Move)
  /-- Turns the switch off. -/
  | halt
  /-- Turns the switch on. -/
  | resume
  /-- Turns the switch over. -/
  | togglePause
  /-- Counts both timers down once. -/
  | countDown
  /-- Takes the draw flag down. -/
  | clearDrawFlag
  /-- Asks for the draw flag and takes it down. -/
  | takeDrawFlag
  /-- Installs an observer in place of the one before, or none. -/
  | trace (t : Option Tracer)
deriving DecidableEq, Repr

/-- What an action is answered with. -/
inductive Reply where
  /-- Nothing to tell. -/
  | done
  /-- The program is in place. -/
  | loaded
  /-- The image is no program. -/
  | refused (e : LoadError)
  /-- What the step came to. -/
  | stepped (outcome : StepOutcome)
  /-- What the tick came to. -/
  | ticked (outcome : TickOutcome)
  /-- The draw flag, or whether a report of the keyboard touched the keys. -/
  | flag (b : Bool)
deriving DecidableEq, Repr

namespace Host

/-- The host after an attempt to load a program. -/
def load (h : Host) (image : Array UInt8) : Reply × Host :=
  match h.machine.load image with
  | .ok m => (.loaded, { h with machine := m, journal := h.journal.report (.loaded image.size) })
  | .error e => (.refused e, h)

/-- The host after a move of the keys. -/
def moveKeys (h : Host) (m : Keypad.Move) : Reply × Host :=
  let reply :=
    match m with
    | .event e => .flag (h.machine.keypad.handle e).1
    | _ => .done
  (reply, h.withMachine (h.machine.withKeypad (h.machine.keypad.move m)))

/-- The answer to an action and the host after it. -/
def perform (h : Host) : Action → Except Crash (Reply × Host)
  | .load image => .ok (h.load image)
  | .step =>
    match h.step with
    | .error c => .error c
    | .ok (outcome, h') => .ok (.stepped outcome, h')
  | .tick =>
    match h.tick with
    | .error c => .error c
    | .ok (outcome, h') => .ok (.ticked outcome, h')
  | .keys m => .ok (h.moveKeys m)
  | .halt => .ok (.done, h.withMachine h.machine.halt)
  | .resume => .ok (.done, h.withMachine h.machine.resume)
  | .togglePause => .ok (.done, h.withMachine h.machine.togglePause)
  | .countDown => .ok (.done, h.withMachine h.machine.countDown)
  | .clearDrawFlag => .ok (.done, h.withMachine h.machine.clearDrawFlag)
  | .takeDrawFlag =>
    .ok (.flag h.machine.takeDrawFlag.1, h.withMachine h.machine.takeDrawFlag.2)
  | .trace t => .ok (.done, { h with tracer := t })

/-- The answers to the actions of a session and the host after it. -/
def performAll (h : Host) : List Action → Except Crash (List Reply × Host)
  | [] => .ok ([], h)
  | a :: rest =>
    match h.perform a with
    | .error c => .error c
    | .ok (reply, h') =>
      match h'.performAll rest with
      | .error c => .error c
      | .ok (replies, h'') => .ok (reply :: replies, h'')

end Host

end ChipEight
