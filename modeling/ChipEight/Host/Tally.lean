import ChipEight.Host.Basic

namespace ChipEight

/-!
# Counted runs — direct steps, tallied by outcome

Steps made here are direct ones: they show no picture and are not counted by the host.

* `Tally` — how many steps came to which outcome;
* `Host.run` — steps as long as the machine runs, up to a limit;
* `Host.force` — so many steps, whether or not the machine runs.
-/

/-- How many steps came to which outcome. -/
structure Tally where
  /-- Steps that drew nothing. -/
  proceeded : Nat
  /-- Steps that drew. -/
  drew : Nat
  /-- Steps that waited for a key. -/
  waiting : Nat
  /-- Steps that met a word that is no instruction. -/
  unknown : Nat
deriving DecidableEq, Repr

namespace Tally

/-- No step. -/
def zero : Tally where
  proceeded := 0
  drew := 0
  waiting := 0
  unknown := 0

/-- One more step. -/
def add (t : Tally) : StepOutcome → Tally
  | .proceeded => { t with proceeded := t.proceeded + 1 }
  | .drew => { t with drew := t.drew + 1 }
  | .waiting => { t with waiting := t.waiting + 1 }
  | .unknown _ => { t with unknown := t.unknown + 1 }

/-- How many steps there were. -/
def steps (t : Tally) : Nat :=
  t.proceeded + t.drew + t.waiting + t.unknown

end Tally

namespace Host

/-- Steps as long as the machine runs, `limit` at most, added to a tally. -/
def run (limit : Nat) (t : Tally) (h : Host) : Except Crash (Tally × Host) :=
  match limit with
  | 0 => .ok (t, h)
  | n + 1 =>
    if h.machine.isRunning then
      match h.step with
      | .error c => .error c
      | .ok (outcome, h') => h'.run n (t.add outcome)
    else
      .ok (t, h)

/-- So many steps, whether or not the machine runs. -/
def force (count : Nat) (h : Host) : Except Crash Host :=
  match count with
  | 0 => .ok h
  | n + 1 =>
    match h.step with
    | .error c => .error c
    | .ok (_, h') => h'.force n

end Host

end ChipEight
