import ChipEight.Proofs.Host.Run

namespace ChipEight

/-!
# Omissions — sessions with some of their actions left out

Some actions reach nothing but a part of the host that no other action looks at. Leaving them out of
a session, and that part out of the host, leaves the rest of the session as it was: the same
answers, the same hosts in between, the same end.

* `Performed`, `Host.history` — a session action by action, and how it ended;
* `Omission` — a part of the host, and the actions that reach only that part;
* `Omission.Thinned` — a session with those actions left out;
* `Omission.Thinned.history` — what is left of the history;
* `Omission.Thinned.performAll` — what is left of the end.
-/

/-! ### Histories -/

/-- An action that was performed. -/
structure Performed where
  /-- The host before the action. -/
  before : Host
  /-- The action. -/
  action : Action
  /-- What the action was answered with. -/
  reply : Reply
  /-- The host after the action. -/
  after : Host

namespace Host

variable {h h' : Host} {a : Action} {reply : Reply} {rest : List Action}

/-- The actions of a session that were performed, oldest first, and the host that the last of them
left or the crash that ended the session. -/
def history (h : Host) : List Action → List Performed × Except Crash Host
  | [] => ([], .ok h)
  | a :: rest =>
    match h.perform a with
    | .error c => ([], .error c)
    | .ok (reply, h') => (⟨h, a, reply, h'⟩ :: (h'.history rest).1, (h'.history rest).2)

theorem history_of_perform (hp : h.perform a = .ok (reply, h')) :
    h.history (a :: rest)
      = (⟨h, a, reply, h'⟩ :: (h'.history rest).1, (h'.history rest).2) := by
  simp [history, hp]

theorem history_of_crash {c : Crash} (hp : h.perform a = .error c) :
    h.history (a :: rest) = ([], .error c) := by
  simp [history, hp]

/-- A history ends as the session does. -/
theorem snd_history (h : Host) (actions : List Action) :
    (h.history actions).2 = (h.performAll actions).map Prod.snd := by
  induction actions generalizing h with
  | nil => rfl
  | cons a rest ih =>
    cases hp : h.perform a with
    | error c =>
      rw [history_of_crash hp, performAll_of_crash hp]
      rfl
    | ok r =>
      rw [history_of_perform hp, performAll_of_perform hp, ih]
      cases r.2.performAll rest <;> rfl

end Host

/-! ### Leaving out -/

/-- A part of the host that can be left out. The actions that reach nothing else always succeed, and
the others come to the same without it. -/
structure Omission where
  /-- The host without the part. -/
  host : Host → Host
  /-- The crash without what the part left in the journal. -/
  crash : Crash → Crash
  /-- Whether an action reaches nothing but the part. -/
  omits : Host → Action → Bool
  /-- The actions that are left out succeed and change nothing else. -/
  omitted : ∀ h a, omits h a = true → ∃ reply h', h.perform a = .ok (reply, h') ∧ host h' = host h
  /-- The other actions come to the same without the part. -/
  kept : ∀ h a, omits h a = false →
    (host h).perform a = ((h.perform a).map (Prod.map id host)).mapError crash

namespace Omission

variable {o : Omission} {h h' : Host} {a : Action} {reply : Reply}
  {rest later actions : List Action}

theorem kept_of_ok (hk : o.omits h a = false) (hp : h.perform a = .ok (reply, h')) :
    (o.host h).perform a = .ok (reply, o.host h') := by
  rw [o.kept h a hk, hp]
  rfl

theorem kept_of_error {c : Crash} (hk : o.omits h a = false) (hp : h.perform a = .error c) :
    (o.host h).perform a = .error (o.crash c) := by
  rw [o.kept h a hk, hp]
  rfl

/-- What is left of an action that was performed. -/
def performed (o : Omission) (p : Performed) : Performed where
  before := o.host p.before
  action := p.action
  reply := p.reply
  after := o.host p.after

/-- What is left of a history: the actions that are kept, and the end. -/
def history (o : Omission) (r : List Performed × Except Crash Host) :
    List Performed × Except Crash Host :=
  ((r.1.filter fun p => !o.omits p.before p.action).map o.performed,
    (r.2.map o.host).mapError o.crash)

/-- A session and what is left of it. What stands behind an action that crashes does not matter. -/
inductive Thinned (o : Omission) : Host → List Action → List Action → Prop
  /-- Nothing is left of nothing. -/
  | nil (h : Host) : Thinned o h [] []
  /-- An action is left out. -/
  | drop {h h' : Host} {a : Action} {reply : Reply} {rest later : List Action} :
      o.omits h a = true → h.perform a = .ok (reply, h') → Thinned o h' rest later →
      Thinned o h (a :: rest) later
  /-- An action is kept. -/
  | keep {h h' : Host} {a : Action} {reply : Reply} {rest later : List Action} :
      o.omits h a = false → h.perform a = .ok (reply, h') → Thinned o h' rest later →
      Thinned o h (a :: rest) (a :: later)
  /-- An action crashes. -/
  | crash {h : Host} {a : Action} {c : Crash} (rest later : List Action) :
      o.omits h a = false → h.perform a = .error c → Thinned o h (a :: rest) (a :: later)

/-- An action is left out, whatever it is answered with. -/
theorem Thinned.of_omits (ha : o.omits h a = true)
    (hrest : ∀ reply h', h.perform a = .ok (reply, h') → Thinned o h' rest later) :
    Thinned o h (a :: rest) later := by
  obtain ⟨reply, h', hp, -⟩ := o.omitted h a ha
  exact .drop ha hp (hrest reply h' hp)

/-- An action is kept, whether it succeeds or crashes. -/
theorem Thinned.of_keeps (ha : o.omits h a = false)
    (hrest : ∀ reply h', h.perform a = .ok (reply, h') → Thinned o h' rest later) :
    Thinned o h (a :: rest) (a :: later) := by
  cases hp : h.perform a with
  | error c => exact .crash rest later ha hp
  | ok r => exact .keep ha hp (hrest r.1 r.2 hp)

/-- The history of what is left of a session is what is left of its history. -/
theorem Thinned.history (ht : o.Thinned h actions later) :
    (o.host h).history later = o.history (h.history actions) := by
  induction ht with
  | nil h => rfl
  | @drop h h' a reply rest later ha hp _ ih =>
    obtain ⟨reply', h'', hp', hhost⟩ := o.omitted h a ha
    rw [hp] at hp'
    cases hp'
    rw [Host.history_of_perform hp, ← hhost, ih]
    simp [Omission.history, ha]
  | keep ha hp _ ih =>
    rw [Host.history_of_perform hp, Host.history_of_perform (kept_of_ok ha hp), ih]
    simp [Omission.history, performed, ha]
  | crash rest later ha hp =>
    rw [Host.history_of_crash hp, Host.history_of_crash (kept_of_error ha hp)]
    rfl

/-- What is left of a session leaves the host that the session does, without the part that is left
out, or ends in the same crash. -/
theorem Thinned.performAll (ht : o.Thinned h actions later) :
    ((o.host h).performAll later).map Prod.snd
      = ((h.performAll actions).map fun r => o.host r.2).mapError o.crash := by
  rw [← Host.snd_history, ht.history, Omission.history, Host.snd_history]
  cases h.performAll actions <;> rfl

end Omission

end ChipEight
