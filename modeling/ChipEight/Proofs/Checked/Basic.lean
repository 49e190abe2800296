import ChipEight.Nibble

namespace ChipEight

/-!
# Checked operations — arithmetic and places that can be refused

A sum, a difference or a product need not fit the size of its result, a shift can be as long as the
number it shifts, and a place can lie outside of an array. The operations here check for that and
refuse with the reason; nothing wraps and nothing is made up. Operations with a constant that always
fits (quotients, remainders and shifts by a constant) need no check and have none.

* `Refusal`, `Refusal.message` — the reasons, with the text of each;
* `Refusal.ofFault` — the faults of a machine as reasons, under the same text;
* `Checked` — a result, or the reason that there is none;
* `Checked.add`, `Checked.sub`, `Checked.mul`, `Checked.shiftRight` — arithmetic;
* `Checked.get`, `Checked.set`, `Checked.take` — places of an array, and all places before one;
* `Checked.nibble` — a byte that has to be a nibble;
* `Checked.loop` — a body for each number below a bound, with the rules `Checked.loop_ok` and
  `Checked.loop_eq`.
-/

/-! ### Reasons -/

/-- Why an operation was refused. -/
inductive Refusal where
  /-- A sum that does not fit. -/
  | addOverflow
  /-- A difference below zero. -/
  | subOverflow
  /-- A product that does not fit. -/
  | mulOverflow
  /-- A shift to the right by all bits or more. -/
  | shiftOverflow
  /-- A place outside of an array. -/
  | index (length place : Nat)
  /-- A range that ends outside of an array. -/
  | rangeEnd (length stop : Nat)
  /-- A range that ends before it starts. -/
  | rangeOrder (start stop : Nat)
  /-- A range filled from an array of another length. -/
  | lengths (source target : Nat)
  /-- A byte above fifteen where a nibble has to be. -/
  | notANibble
deriving DecidableEq, Repr

/-- The text a refusal is reported with. -/
def Refusal.message : Refusal → String
  | .addOverflow => "attempt to add with overflow"
  | .subOverflow => "attempt to subtract with overflow"
  | .mulOverflow => "attempt to multiply with overflow"
  | .shiftOverflow => "attempt to shift right with overflow"
  | .index length place =>
    "index out of bounds: the len is " ++ toString length ++ " but the index is " ++ toString place
  | .rangeEnd length stop =>
    "range end index " ++ toString stop ++ " out of range for slice of length " ++ toString length
  | .rangeOrder start stop =>
    "slice index starts at " ++ toString start ++ " but ends at " ++ toString stop
  | .lengths source target =>
    "copy_from_slice: source slice length (" ++ toString source
      ++ ") does not match destination slice length (" ++ toString target ++ ")"
  | .notANibble => "u4 value must be in range 0x0-0xF"

/-- The refusal that a fault of the machine comes from. -/
def Refusal.ofFault : Fault → Refusal
  | .returnWithoutCall => .subOverflow
  | .callTooDeep => .index 16 16
  | .notANibble => .notANibble

/-- A fault and the refusal that it comes from are reported alike. -/
theorem Refusal.message_ofFault (f : Fault) : (Refusal.ofFault f).message = f.message := by
  cases f <;> decide

/-- A result, or the reason that there is none. -/
abbrev Checked (α : Type) := Except Refusal α

namespace Checked

variable {α β σ : Type} {n : Nat}

/-! ### Operations -/

/-- The number of values of a byte. -/
abbrev byteLimit : Nat := 256

/-- The number of values of a word. -/
abbrev wordLimit : Nat := 65536

/-- The number of values of a size. -/
abbrev sizeLimit : Nat := 18446744073709551616

/-- The sum of two numbers, which has to stay below a limit. -/
def add (limit a b : Nat) : Checked Nat :=
  if a + b < limit then .ok (a + b) else .error .addOverflow

/-- The difference of two numbers. -/
def sub (a b : Nat) : Checked Nat :=
  if b ≤ a then .ok (a - b) else .error .subOverflow

/-- The product of two numbers, which has to stay below a limit. -/
def mul (limit a b : Nat) : Checked Nat :=
  if a * b < limit then .ok (a * b) else .error .mulOverflow

/-- A byte shifted to the right. -/
def shiftRight (a : UInt8) (k : Nat) : Checked UInt8 :=
  if k < 8 then .ok (a >>> UInt8.ofNat k) else .error .shiftOverflow

/-- What is in a place of an array. -/
def get (v : Vector α n) (i : Nat) : Checked α :=
  if h : i < n then .ok v[i] else .error (.index n i)

/-- The array with something else in a place. -/
def set (v : Vector α n) (i : Nat) (a : α) : Checked (Vector α n) :=
  if h : i < n then .ok (v.set i a) else .error (.index n i)

/-- What is in the places before one. -/
def take (v : Vector α n) (stop : Nat) : Checked (List α) :=
  if stop ≤ n then .ok (v.toList.take stop) else .error (.rangeEnd n stop)

/-- A byte as a nibble. -/
def nibble (b : UInt8) : Checked Nibble :=
  if h : b.toNat < 16 then .ok ⟨b.toNat, h⟩ else .error .notANibble

/-- A body run for each number below `n` in order, on what it left the time before. -/
def loop (n : Nat) (s : σ) (body : Nat → σ → Checked σ) : Checked σ :=
  (List.range n).foldlM (fun s k => body k s) s

/-! ### Operations that are not refused -/

@[simp] theorem ok_bind (a : α) (f : α → Checked β) : ((.ok a : Checked α) >>= f) = f a := rfl

@[simp] theorem error_bind (r : Refusal) (f : α → Checked β) :
    ((.error r : Checked α) >>= f) = .error r := rfl

variable {limit a b i : Nat} {v : Vector α n} {x : α}

theorem add_of_lt (h : a + b < limit) : add limit a b = .ok (a + b) :=
  if_pos h

theorem sub_of_le (h : b ≤ a) : sub a b = .ok (a - b) :=
  if_pos h

theorem mul_of_lt (h : a * b < limit) : mul limit a b = .ok (a * b) :=
  if_pos h

theorem shiftRight_of_lt {c : UInt8} (h : i < 8) :
    shiftRight c i = .ok (c >>> UInt8.ofNat i) :=
  if_pos h

theorem get_of_lt (h : i < n) : get v i = .ok v[i] :=
  dif_pos h

theorem set_of_lt (h : i < n) : set v i x = .ok (v.set i x) :=
  dif_pos h

theorem take_of_le (h : i ≤ n) : take v i = .ok (v.toList.take i) :=
  if_pos h

theorem nibble_of_lt {c : UInt8} (h : c.toNat < 16) : nibble c = .ok ⟨c.toNat, h⟩ :=
  dif_pos h

/-! ### Loops -/

variable {s : σ} {body : Nat → σ → Checked σ}

/-- The last round of a loop comes after all others. -/
theorem loop_succ : loop (n + 1) s body = loop n s body >>= body n := by
  rw [loop, List.range_succ, List.foldlM_append]
  show (loop n s body >>= fun s => body n s >>= fun s => .ok s) = _
  congr 1
  funext s'
  cases body n s' <;> rfl

/-- **Loop rule.** An invariant that holds at first, and under which every round succeeds and keeps
it, holds at the end of a loop that succeeds. -/
theorem loop_ok (I : Nat → σ → Prop) (hstart : I 0 s)
    (hround : ∀ k t, k < n → I k t → ∃ t', body k t = .ok t' ∧ I (k + 1) t') :
    ∃ t, loop n s body = .ok t ∧ I n t := by
  induction n with
  | zero => exact ⟨s, rfl, hstart⟩
  | succ n ih =>
    obtain ⟨t, ht, hI⟩ := ih fun k t hk => hround k t (Nat.lt_succ_of_lt hk)
    obtain ⟨t', ht', hI'⟩ := hround n t (Nat.lt_succ_self n) hI
    refine ⟨t', ?_, hI'⟩
    rw [loop_succ, ht]
    exact ht'

/-- A loop whose rounds lead from each state of a sequence to the next one ends in the last. -/
theorem loop_eq (states : Nat → σ)
    (hround : ∀ k, k < n → body k (states k) = .ok (states (k + 1))) :
    loop n (states 0) body = .ok (states n) := by
  have h : ∃ t, loop n (states 0) body = .ok t ∧ t = states n := by
    refine loop_ok (fun k t => t = states k) rfl ?_
    rintro k t hk rfl
    exact ⟨_, hround k hk, rfl⟩
  obtain ⟨t, ht, rfl⟩ := h
  exact ht

end Checked

end ChipEight
