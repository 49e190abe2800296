import ChipEight.Proofs.Instruction.Assembly
import ChipEight.Proofs.Machine.MemoryText

namespace ChipEight

/-!
# The snapshot of the registers — a text that loses nothing

Every line of the snapshot gives numbers between labels. Blanks, commas and brackets end a number,
so that it does not matter how many digits it has or how many numbers there are in a line. A label
ends in a colon and is not taken for a number, and the mnemonic comes after the number of its line.

* `Overview`, `Machine.overview` — what the snapshot shows;
* `numbersOf` — the numbers in a line, with `numbersOf_append` for its parts;
* `Machine.numbersOf_registerLines` — the numbers in the lines of the snapshot;
* `Overview.ofText?_registerText` — what the snapshot shows, read back;
* `Machine.registerText_faithful` — all of it.
-/

/-- What a snapshot of the registers shows. -/
structure Overview where
  /-- The word of the last step. -/
  word : UInt16
  /-- The address of the next word. -/
  pc : UInt16
  /-- The index. -/
  index : UInt16
  /-- The number of calls in progress. -/
  depth : Nat
  /-- The delay timer. -/
  delay : UInt8
  /-- The sound timer. -/
  sound : UInt8
  /-- The return addresses, oldest first. -/
  addresses : List UInt16
  /-- The general registers. -/
  registers : Registers
deriving DecidableEq, Repr

/-- The numbers in the line of the registers `i` and `i + 8`. -/
def Overview.pairOf (r : Registers) (i : Fin 8) : List Nat :=
  [(r.get (i.castAdd 8)).toNat, (r.get (i.natAdd 8)).toNat]

/-- What a snapshot of the registers of a machine shows. -/
def Machine.overview (m : Machine) : Overview where
  word := m.word
  pc := m.pc
  index := m.index
  depth := m.stack.depth
  delay := m.delay
  sound := m.sound
  addresses := m.stack.toList
  registers := m.registers

/-! ### Numbers in a line -/

/-- What a number in a line ends at. -/
def endsNumber (c : Char) : Bool :=
  c ∈ [' ', ',', '[', ']']

/-- The number that a word spells in base sixteen, if it is one. -/
def number? (w : String) : Option Nat :=
  if w.toList.all fun c => (Hex.digitValue? c).isSome then some (Hex.value w.toList) else none

/-- The numbers in a line. -/
def numbersOf (line : String) : List Nat :=
  (wordsOf endsNumber line).filterMap number?

variable {gap label : String} {width n : Nat}

theorem numbersOf_append (h : IsGap endsNumber gap) (s t : String) :
    numbersOf (s ++ gap ++ t) = numbersOf s ++ numbersOf t := by
  rw [numbersOf, wordsOf_append h, List.filterMap_append]
  rfl

theorem endsNumber_of_mem_padded {c : Char} (h : c ∈ Hex.padded width n) :
    endsNumber c = false :=
  decide_eq_false (notMem_of_mem_padded (by decide) h)

theorem isWord_text (width n : Nat) : IsWord endsNumber (Hex.text width n) := by
  rw [IsWord, Hex.toList_text]
  constructor
  · exact List.append_ne_nil_of_right_ne_nil _ (Hex.digits_ne_nil n)
  · exact fun c => endsNumber_of_mem_padded

theorem number?_text (width n : Nat) : number? (Hex.text width n) = some n := by
  rw [number?, Hex.toList_text, Hex.value_padded, if_pos]
  exact List.all_eq_true.2 fun c => Hex.isSome_of_mem_padded

@[simp] theorem numbersOf_text (width n : Nat) : numbersOf (Hex.text width n) = [n] := by
  rw [numbersOf, wordsOf_word (isWord_text width n)]
  simp [number?_text]

/-- A word with a colon, which is no digit. -/
def IsLabel (w : String) : Prop :=
  IsWord endsNumber w ∧ ':' ∈ w.toList

instance (w : String) : Decidable (IsLabel w) :=
  inferInstanceAs (Decidable (IsWord endsNumber w ∧ ':' ∈ w.toList))

theorem numbersOf_label (h : IsLabel label) : numbersOf label = [] := by
  obtain ⟨hword, hcolon⟩ := h
  have hnone : number? label = none := by
    rw [number?, if_neg]
    intro hall
    exact absurd (List.all_eq_true.1 hall _ hcolon) (by decide)
  rw [numbersOf, wordsOf_word hword]
  simp [hnone]

/-- A number after its label. -/
theorem numbersOf_field (h : IsLabel label) (width n : Nat) :
    numbersOf (label ++ " " ++ Hex.text width n) = [n] := by
  rw [numbersOf_append (by decide), numbersOf_label h, numbersOf_text]
  rfl

theorem numbersOf_intercalate (h : IsGap endsNumber gap) (width : Nat) (ns : List Nat) :
    numbersOf (gap.intercalate (ns.map (Hex.text width))) = ns := by
  rw [numbersOf, wordsOf_intercalate h, List.filterMap_map]
  · have hsome : number? ∘ Hex.text width = some := funext (number?_text width)
    rw [hsome, List.filterMap_some]
  · exact List.forall_mem_map.2 fun n _ => isWord_text width n

namespace Machine

/-! ### The lines of a snapshot -/

/-- The number of the word comes first, whatever the mnemonic after it looks like. -/
theorem exists_numbersOf_wordLine (w : Nat) (mnemonic : String) :
    ∃ rest, numbersOf ("OP: " ++ Hex.text 4 w ++ " (" ++ mnemonic ++ ")") = w :: rest := by
  have hline : "OP: " ++ Hex.text 4 w ++ " (" ++ mnemonic ++ ")"
      = "OP:" ++ " " ++ Hex.text 4 w ++ " " ++ ("(" ++ mnemonic ++ ")") := by
    apply String.toList_inj.1
    simp
  refine ⟨numbersOf ("(" ++ mnemonic ++ ")"), ?_⟩
  rw [hline, numbersOf_append (by decide), numbersOf_field (by decide)]
  rfl

theorem numbersOf_addressLine (pc index depth : Nat) :
    numbersOf ("PC: " ++ Hex.text 3 pc ++ "  I: " ++ Hex.text 3 index ++ "  SP: "
      ++ Hex.text 1 depth) = [pc, index, depth] := by
  have hline : "PC: " ++ Hex.text 3 pc ++ "  I: " ++ Hex.text 3 index ++ "  SP: "
        ++ Hex.text 1 depth
      = ("PC:" ++ " " ++ Hex.text 3 pc) ++ "  " ++ ("I:" ++ " " ++ Hex.text 3 index) ++ "  "
        ++ ("SP:" ++ " " ++ Hex.text 1 depth) := by
    apply String.toList_inj.1
    simp
  rw [hline, numbersOf_append (by decide), numbersOf_append (by decide),
    numbersOf_field (by decide), numbersOf_field (by decide), numbersOf_field (by decide)]
  rfl

theorem numbersOf_timerLine (delay sound : Nat) :
    numbersOf ("DT: " ++ Hex.text 2 delay ++ "   ST: " ++ Hex.text 2 sound) = [delay, sound] := by
  have hline : "DT: " ++ Hex.text 2 delay ++ "   ST: " ++ Hex.text 2 sound
      = ("DT:" ++ " " ++ Hex.text 2 delay) ++ "   " ++ ("ST:" ++ " " ++ Hex.text 2 sound) := by
    apply String.toList_inj.1
    simp
  rw [hline, numbersOf_append (by decide), numbersOf_field (by decide),
    numbersOf_field (by decide)]
  rfl

/-- The brackets are there also when there is nothing between them. -/
theorem numbersOf_stackLine (m : Machine) :
    numbersOf ("Stack: " ++ m.stackText) = m.stack.toList.map UInt16.toNat := by
  have hline : "Stack: " ++ m.stackText
      -- the closing bracket is a gap as well, with nothing after it
      = "Stack:" ++ " [" ++ (", ".intercalate ((m.stack.toList.map UInt16.toNat).map (Hex.text 3))
        ++ "]" ++ "") := by
    apply String.toList_inj.1
    simp [stackText, Function.comp_def]
  rw [hline, numbersOf_append (by decide), numbersOf_append (by decide),
    numbersOf_label (by decide), numbersOf_intercalate (by decide)]
  exact List.append_nil _

theorem isLabel_register (n : Nat) : IsLabel ("V" ++ Hex.text 1 n ++ ":") := by
  have hchars : ("V" ++ Hex.text 1 n ++ ":").toList = 'V' :: (Hex.padded 1 n ++ [':']) := by
    simp
  rw [IsLabel, IsWord, hchars]
  refine ⟨⟨List.cons_ne_nil _ _, List.forall_mem_cons.2 ⟨rfl, ?_⟩⟩, by simp⟩
  intro c hc
  rcases List.mem_append.1 hc with hc | hc
  · exact endsNumber_of_mem_padded hc
  · rw [List.mem_singleton.1 hc]
    rfl

theorem numbersOf_registerPair (m : Machine) (i : Fin 8) :
    numbersOf (m.registerPair i) = Overview.pairOf m.registers i := by
  have hline : ∀ a b : Nat,
      "V" ++ Hex.text 1 i.val ++ ": " ++ Hex.text 2 a ++ "   V" ++ Hex.text 1 (i.val + 8) ++ ": "
          ++ Hex.text 2 b
        = (("V" ++ Hex.text 1 i.val ++ ":") ++ " " ++ Hex.text 2 a) ++ "   "
          ++ (("V" ++ Hex.text 1 (i.val + 8) ++ ":") ++ " " ++ Hex.text 2 b) := by
    intro a b
    apply String.toList_inj.1
    simp
  rw [registerPair, hline, numbersOf_append (by decide), numbersOf_field (isLabel_register _),
    numbersOf_field (isLabel_register _)]
  rfl

/-- The numbers in a snapshot, line by line. -/
theorem numbersOf_registerLines (m : Machine) :
    ∃ rest, m.registerLines.map numbersOf
      = (m.word.toNat :: rest) :: [m.pc.toNat, m.index.toNat, m.stack.depth]
        :: [m.delay.toNat, m.sound.toNat] :: m.stack.toList.map UInt16.toNat
        :: (List.finRange 8).map (Overview.pairOf m.registers) := by
  obtain ⟨rest, hword⟩ :=
    exists_numbersOf_wordLine m.word.toNat (Instruction.decode m.word).mnemonic
  refine ⟨rest, ?_⟩
  rw [registerLines, List.map_append, List.map_map]
  simp only [List.map_cons, List.map_nil, hword, numbersOf_addressLine, numbersOf_timerLine,
    numbersOf_stackLine, Function.comp_def, numbersOf_registerPair]
  rfl

/-- No line of a snapshot has a line feed of its own. -/
theorem newline_notMem_registerLines (m : Machine) : ∀ l ∈ m.registerLines, '\n' ∉ l.toList := by
  have htext : ∀ width n, '\n' ∉ Hex.padded width n := by
    intro width n h
    exact absurd (Hex.isSome_of_mem_padded h) (by decide)
  have hmnemonic := Instruction.newline_notMem_mnemonic (.decode m.word)
  have haddresses : '\n' ∉ m.stackText.toList := by
    have hjoined : '\n' ∉ (", ".intercalate (m.stack.toList.map fun a =>
        Hex.text 3 a.toNat)).toList :=
      notMem_intercalate ", " (by decide) (List.forall_mem_map.2 fun a _ => by simp [htext])
    simpa [stackText] using hjoined
  rw [registerLines, List.forall_mem_append]
  constructor
  · simp [htext, hmnemonic, haddresses]
  · refine List.forall_mem_map.2 fun i _ => ?_
    simp [registerPair, htext]

end Machine

/-! ### Reading a snapshot -/

namespace Overview

/-- The registers of which rows of two show the one after the other in the lower and in the upper
half. -/
def registersOf (rows : List (List Nat)) : Registers :=
  Vector.ofFn fun k => UInt8.ofNat ((rows.getD (k.val % 8) []).getD (k.val / 8) 0)

/-- What lines of numbers show. -/
def ofNumbers? : List (List Nat) → Option Overview
  | (word :: _) :: [pc, index, depth] :: [delay, sound] :: addresses :: rows =>
    some {
      word := UInt16.ofNat word
      pc := UInt16.ofNat pc
      index := UInt16.ofNat index
      depth := depth
      delay := UInt8.ofNat delay
      sound := UInt8.ofNat sound
      addresses := addresses.map UInt16.ofNat
      registers := registersOf rows }
  | _ => none

/-- What a snapshot of the registers shows, read from its text. -/
def ofText? (t : String) : Option Overview :=
  ofNumbers? ((linesOfText t).map numbersOf)

/-- Each register has its place in one of the rows. -/
theorem registersOf_pairs (r : Registers) :
    registersOf ((List.finRange 8).map (pairOf r)) = r := by
  apply Bank.ext_get
  intro k
  have hmod : k.val % 8 < 8 := Nat.mod_lt _ (by decide)
  have hget : (registersOf ((List.finRange 8).map (pairOf r))).get k
      = UInt8.ofNat ((pairOf r ⟨k.val % 8, hmod⟩).getD (k.val / 8) 0) := by
    rw [registersOf, Bank.get, Vector.getElem_ofFn]
    simp [List.getD_eq_getElem?_getD, hmod]
  -- the remainder names the row, the quotient the place in it
  rw [hget, pairOf]
  by_cases hlow : k.val < 8
  · have hplace : Fin.castAdd 8 ⟨k.val % 8, hmod⟩ = k := Fin.ext (Nat.mod_eq_of_lt hlow)
    rw [Nat.div_eq_of_lt hlow, hplace]
    exact UInt8.ofNat_toNat
  · have hk := k.isLt
    have hplace : Fin.natAdd 8 ⟨k.val % 8, hmod⟩ = k := by
      apply Fin.ext
      show 8 + k.val % 8 = k.val
      omega
    have hhigh : k.val / 8 = 1 := by omega
    rw [hhigh, hplace]
    exact UInt8.ofNat_toNat

theorem ofText?_registerText (m : Machine) : ofText? m.registerText = some m.overview := by
  obtain ⟨rest, hnumbers⟩ := m.numbersOf_registerLines
  rw [ofText?, Machine.registerText, linesOfText_textOfLines m.newline_notMem_registerLines,
    hnumbers, ofNumbers?, registersOf_pairs]
  simp [Machine.overview, Function.comp_def]

end Overview

namespace Machine

/-- A snapshot shows nothing but the parts of its overview. -/
theorem registerText_of_overview {a b : Machine} (h : a.overview = b.overview) :
    a.registerText = b.registerText := by
  simp only [overview, Overview.mk.injEq] at h
  obtain ⟨hword, hpc, hindex, hdepth, hdelay, hsound, haddresses, hregisters⟩ := h
  have hstack : a.stackText = b.stackText := by
    rw [stackText, stackText, haddresses]
  have hpair : a.registerPair = b.registerPair := by
    funext i
    rw [registerPair, registerPair, hregisters]
  rw [registerText, registerText, registerLines, registerLines, hword, hpc, hindex, hdepth, hdelay,
    hsound, hstack, hpair]

/-- **The snapshot of the registers loses nothing**: what it shows can be read back from its text,
so that two machines have the same text exactly if they agree on the word of the last step, the
counter, the index, the depth of the stack, both timers, the return addresses and every register.
Addresses may have three digits or four, and there may be any number of return addresses. -/
theorem registerText_faithful :
    (∀ m : Machine, Overview.ofText? m.registerText = some m.overview)
      ∧ ∀ a b : Machine, a.registerText = b.registerText
        ↔ a.word = b.word ∧ a.pc = b.pc ∧ a.index = b.index ∧ a.stack.depth = b.stack.depth
          ∧ a.delay = b.delay ∧ a.sound = b.sound ∧ a.stack.toList = b.stack.toList
          ∧ ∀ k, a.registers.get k = b.registers.get k := by
  refine ⟨Overview.ofText?_registerText, fun a b => ?_⟩
  constructor
  · intro h
    have hsame : a.overview = b.overview := by
      apply Option.some.inj
      rw [← Overview.ofText?_registerText, h, Overview.ofText?_registerText]
    simp only [overview, Overview.mk.injEq] at hsame
    obtain ⟨hword, hpc, hindex, hdepth, hdelay, hsound, haddresses, hregisters⟩ := hsame
    exact ⟨hword, hpc, hindex, hdepth, hdelay, hsound, haddresses, fun k => by rw [hregisters]⟩
  · rintro ⟨hword, hpc, hindex, hdepth, hdelay, hsound, haddresses, hregisters⟩
    apply registerText_of_overview
    rw [overview, overview, hword, hpc, hindex, hdepth, hdelay, hsound, haddresses,
      Bank.ext_get hregisters]

end Machine

end ChipEight
