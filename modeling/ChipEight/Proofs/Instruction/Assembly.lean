import ChipEight.Instruction.Mnemonic
import ChipEight.Proofs.Text.Words

namespace ChipEight

/-!
# Assembly — an instruction read back from its mnemonic

A mnemonic is a name and up to three operands. Many instructions share a name; which of them is
meant shows in the kinds of their operands, and nowhere do two kinds that look alike stand in one
place: a byte and an address are never alternatives, and neither of them looks like a register, a
height or one of the other operands.

* `Operand`, `Operand.ofText` — what can stand after a name, and how it is recognised;
* `Instruction.parts`, `Instruction.mnemonic_eq_line` — the name and the operands of a mnemonic;
* `Instruction.ofParts?` — the instruction that a name and operands make;
* `Instruction.ofMnemonic?_mnemonic` — every instruction is read back from its mnemonic.
-/

/-! ### Operands -/

theorem Nibble.mod_lt (n : Nat) : n % 16 < 16 :=
  Nat.mod_lt n (by decide)

/-- The nibble with the value of a digit. -/
def Nibble.ofNat (n : Nat) : Nibble :=
  ⟨n % 16, Nibble.mod_lt n⟩

@[simp] theorem Nibble.ofNat_val (x : Nibble) : Nibble.ofNat x.val = x :=
  Fin.ext (Nat.mod_eq_of_lt x.isLt)

theorem toList_registerName (x : Nibble) : (registerName x).toList = 'V' :: Hex.padded 1 x.val := by
  rw [registerName, String.toList_append, Hex.toList_text]
  rfl

/-- What can stand after the name of an instruction. -/
inductive Operand where
  /-- A register. -/
  | register (x : Nibble)
  /-- A number in base sixteen: a byte, an address or a word. -/
  | number (n : Nat)
  /-- The height of a sprite. -/
  | height (n : Nat)
  /-- The index. -/
  | index
  /-- The bytes at the index. -/
  | memory
  /-- The delay timer. -/
  | delay
  /-- The sound timer. -/
  | sound
  /-- A key. -/
  | key
  /-- The glyph of a digit. -/
  | glyph
  /-- The decimal digits. -/
  | decimal
deriving DecidableEq, Repr

namespace Operand

/-- The number that decimal digits spell. -/
def heightOf (cs : List Char) : Nat :=
  cs.foldl (fun n c => 10 * n + (Hex.digitValue? c).getD 0) 0

/-- The operand that characters stand for. -/
def ofChars : List Char → Operand
  | ['I'] => .index
  | ['[', 'I', ']'] => .memory
  | ['D', 'T'] => .delay
  | ['S', 'T'] => .sound
  | ['K'] => .key
  | ['F'] => .glyph
  | ['B'] => .decimal
  | 'V' :: cs => .register (Nibble.ofNat (Hex.value cs))
  | '0' :: 'x' :: cs => .number (Hex.value cs)
  | cs => .height (heightOf cs)

/-- The operand that a text stands for. -/
def ofText (t : String) : Operand :=
  ofChars t.toList

@[simp] theorem ofText_registerName (x : Nibble) : ofText (registerName x) = .register x := by
  rw [ofText, toList_registerName]
  show Operand.register (Nibble.ofNat (Hex.value (Hex.padded 1 x.val))) = _
  rw [Hex.value_padded, Nibble.ofNat_val]

@[simp] theorem ofText_marked (width n : Nat) : ofText (Hex.marked width n) = .number n := by
  rw [ofText, Hex.toList_marked]
  show Operand.number (Hex.value (Hex.padded width n)) = _
  rw [Hex.value_padded]

@[simp] theorem ofText_toString (n : Nibble) : ofText (toString n.val) = .height n.val := by
  have all : ∀ k : Nibble, ofText (toString k.val) = .height k.val := by decide
  exact all n

theorem ofText_fixed :
    ofText "V0" = .register 0 ∧ ofText "I" = .index ∧ ofText "[I]" = .memory ∧ ofText "DT" = .delay
      ∧ ofText "ST" = .sound ∧ ofText "K" = .key ∧ ofText "F" = .glyph ∧ ofText "B" = .decimal := by
  decide

end Operand

/-! ### The parts of a mnemonic -/

/-- What a part of a mnemonic ends at. -/
def endsPart (c : Char) : Bool :=
  c ∈ [' ', ',', '\n']

theorem endsPart_of_mem_padded {width n : Nat} {c : Char} (h : c ∈ Hex.padded width n) :
    endsPart c = false :=
  decide_eq_false (notMem_of_mem_padded (by decide) h)

theorem isWord_registerName (x : Nibble) : IsWord endsPart (registerName x) := by
  rw [IsWord, toList_registerName]
  refine ⟨List.cons_ne_nil _ _, List.forall_mem_cons.2 ⟨rfl, ?_⟩⟩
  exact fun c => endsPart_of_mem_padded

theorem isWord_marked (width n : Nat) : IsWord endsPart (Hex.marked width n) := by
  rw [IsWord, Hex.toList_marked]
  refine ⟨List.cons_ne_nil _ _, ?_⟩
  exact List.forall_mem_cons.2 ⟨rfl, List.forall_mem_cons.2 ⟨rfl, fun c => endsPart_of_mem_padded⟩⟩

theorem isWord_toString (n : Nibble) : IsWord endsPart (toString n.val) := by
  have all : ∀ k : Nibble, IsWord endsPart (toString k.val) := by decide
  exact all n

/-- A name and its operands, written out. -/
def assemblyLine (name : String) : List String → String
  | [] => name
  | t :: rest => name ++ " " ++ ", ".intercalate (t :: rest)

namespace Instruction

/-- The name of an instruction and the texts of its operands. -/
def parts : Instruction → String × List String
  | .clear => ("CLS", [])
  | .ret => ("RET", [])
  | .jump a => ("JP", [addressText a])
  | .jumpOffset a => ("JP", ["V0", addressText a])
  | .call a => ("CALL", [addressText a])
  | .skipEqual x b => ("SE", [registerName x, byteText b])
  | .skipUnequal x b => ("SNE", [registerName x, byteText b])
  | .skipSame x y => ("SE", [registerName x, registerName y])
  | .skipDifferent x y => ("SNE", [registerName x, registerName y])
  | .set x b => ("LD", [registerName x, byteText b])
  | .add x b => ("ADD", [registerName x, byteText b])
  | .alu op x y => (op.mnemonic, [registerName x, registerName y])
  | .random x b => ("RND", [registerName x, byteText b])
  | .setIndex a => ("LD", ["I", addressText a])
  | .addIndex x => ("ADD", ["I", registerName x])
  | .draw x y n => ("DRW", [registerName x, registerName y, toString n.val])
  | .skipKeyDown x => ("SKP", [registerName x])
  | .skipKeyUp x => ("SKNP", [registerName x])
  | .awaitKey x => ("LD", [registerName x, "K"])
  | .readDelay x => ("LD", [registerName x, "DT"])
  | .startDelay x => ("LD", ["DT", registerName x])
  | .startSound x => ("LD", ["ST", registerName x])
  | .glyph x => ("LD", ["F", registerName x])
  | .decimal x => ("LD", ["B", registerName x])
  | .store x => ("LD", ["[I]", registerName x])
  | .load x => ("LD", [registerName x, "[I]"])
  | .unknown w => ("???", [Hex.marked 4 w.toNat])

theorem mnemonic_eq_line (i : Instruction) : i.mnemonic = assemblyLine i.parts.1 i.parts.2 := by
  cases i
  all_goals
    apply String.toList_inj.1
    simp [mnemonic, parts, assemblyLine]

/-- The parts of a mnemonic are words. -/
theorem isWord_parts (i : Instruction) :
    IsWord endsPart i.parts.1 ∧ ∀ t ∈ i.parts.2, IsWord endsPart t := by
  cases i
  case clear | ret => decide
  case alu op x y =>
    have hname : IsWord endsPart op.mnemonic := by
      cases op <;> decide
    simp [parts, hname, isWord_registerName]
  -- what is left when the operands with a value are taken out are fixed texts
  all_goals
    simp only [parts, addressText, byteText, isWord_registerName, isWord_marked, isWord_toString,
      List.forall_mem_cons, true_and]
    decide

/-- The parts of a mnemonic are its words. -/
theorem wordsOf_mnemonic (i : Instruction) :
    wordsOf endsPart i.mnemonic = i.parts.1 :: i.parts.2 := by
  obtain ⟨hname, hoperands⟩ := isWord_parts i
  rw [mnemonic_eq_line]
  match h : i.parts.2 with
  | [] => exact wordsOf_word hname
  | t :: rest =>
    rw [h] at hoperands
    rw [assemblyLine, wordsOf_append (by decide), wordsOf_word hname,
      wordsOf_intercalate (by decide) hoperands]
    rfl

/-- A mnemonic is one line. -/
theorem newline_notMem_mnemonic (i : Instruction) : '\n' ∉ i.mnemonic.toList := by
  have hword : ∀ t, IsWord endsPart t → '\n' ∉ t.toList :=
    fun t ht h => absurd (ht.2 _ h) (by decide)
  obtain ⟨hname, hoperands⟩ := isWord_parts i
  rw [mnemonic_eq_line]
  match h : i.parts.2 with
  | [] => exact hword _ hname
  | t :: rest =>
    rw [h] at hoperands
    have hrest := notMem_intercalate ", " (by decide) fun u hu => hword u (hoperands u hu)
    rw [assemblyLine, String.toList_append, String.toList_append, List.mem_append, List.mem_append,
      not_or, not_or]
    exact ⟨⟨hword _ hname, by decide⟩, hrest⟩

end Instruction

/-! ### Reading a mnemonic -/

/-- The operation that a name stands for. -/
def AluOp.ofName? : String → Option AluOp
  | "LD" => some .set
  | "OR" => some .or
  | "AND" => some .and
  | "XOR" => some .xor
  | "ADD" => some .add
  | "SUB" => some .sub
  | "SHR" => some .shiftRight
  | "SUBN" => some .subReverse
  | "SHL" => some .shiftLeft
  | _ => none

namespace Instruction

/-- The instruction that a name and operands make. -/
def ofParts? (name : String) : List Operand → Option Instruction
  | [] =>
    match name with
    | "CLS" => some .clear
    | "RET" => some .ret
    | _ => none
  | [.number n] =>
    match name with
    | "JP" => some (.jump (UInt16.ofNat n))
    | "CALL" => some (.call (UInt16.ofNat n))
    | "???" => some (.unknown (UInt16.ofNat n))
    | _ => none
  | [.register x] =>
    match name with
    | "SKP" => some (.skipKeyDown x)
    | "SKNP" => some (.skipKeyUp x)
    | _ => none
  | [.register x, .number n] =>
    match name with
    | "JP" => some (.jumpOffset (UInt16.ofNat n))
    | "SE" => some (.skipEqual x (UInt8.ofNat n))
    | "SNE" => some (.skipUnequal x (UInt8.ofNat n))
    | "LD" => some (.set x (UInt8.ofNat n))
    | "ADD" => some (.add x (UInt8.ofNat n))
    | "RND" => some (.random x (UInt8.ofNat n))
    | _ => none
  | [.register x, .register y] =>
    match name with
    | "SE" => some (.skipSame x y)
    | "SNE" => some (.skipDifferent x y)
    | _ => (AluOp.ofName? name).map (.alu · x y)
  | [.index, .number n] => some (.setIndex (UInt16.ofNat n))
  | [.index, .register x] => some (.addIndex x)
  | [.register x, .register y, .height n] => some (.draw x y (Nibble.ofNat n))
  | [.register x, .key] => some (.awaitKey x)
  | [.register x, .delay] => some (.readDelay x)
  | [.delay, .register x] => some (.startDelay x)
  | [.sound, .register x] => some (.startSound x)
  | [.glyph, .register x] => some (.glyph x)
  | [.decimal, .register x] => some (.decimal x)
  | [.memory, .register x] => some (.store x)
  | [.register x, .memory] => some (.load x)
  | _ => none

/-- The instruction that a text is the mnemonic of. -/
def ofMnemonic? (t : String) : Option Instruction :=
  match wordsOf endsPart t with
  | [] => none
  | name :: operands => ofParts? name (operands.map Operand.ofText)

/-- The name and the kinds of the operands tell which instruction is meant, and the operands are all
that it holds. -/
theorem ofParts?_parts (i : Instruction) :
    ofParts? i.parts.1 (i.parts.2.map Operand.ofText) = some i := by
  cases i
  case alu op x y =>
    simp only [parts, List.map_cons, List.map_nil, Operand.ofText_registerName]
    -- the operations have the same operands, so that only their names tell them apart
    cases op <;> rfl
  all_goals
    simp only [parts, addressText, byteText, List.map_cons, List.map_nil,
      Operand.ofText_registerName, Operand.ofText_marked, Operand.ofText_toString,
      Operand.ofText_fixed]
    simp [ofParts?]

/-- Every instruction is read back from its mnemonic. -/
theorem ofMnemonic?_mnemonic (i : Instruction) : ofMnemonic? i.mnemonic = some i := by
  rw [ofMnemonic?, wordsOf_mnemonic]
  exact ofParts?_parts i

/-- No two instructions have the same mnemonic. -/
theorem mnemonic_inj {i j : Instruction} : i.mnemonic = j.mnemonic ↔ i = j := by
  constructor
  · intro h
    rw [← Option.some.injEq, ← ofMnemonic?_mnemonic, h, ofMnemonic?_mnemonic]
  · intro h
    rw [h]

end Instruction

end ChipEight
