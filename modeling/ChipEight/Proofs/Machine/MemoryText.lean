import ChipEight.Machine.Snapshot
import Mathlib.Data.List.Chain

namespace ChipEight

/-!
# The snapshot of the memory — a text that loses nothing

The snapshot has a line for each row of sixteen bytes that are not all zero. Rows of zeros are left
out, and one line stands for all that follow each other. Since every line that is not such a gap
carries its address, the rows that are missing are known, and the memory can be read back.

* `linesOfText`, `linesOfText_textOfLines` — a text of lines, read line by line;
* `Memory.row`, `Memory.rows_eq` — the rows of the memory;
* `Memory.rowSpelling`, `Memory.toList_rowLine` — the characters of a line;
* `Block`, `Block.ofRows`, `Memory.linesOfRows_eq` — the rows cut into what one line each stands
  for;
* `Memory.Listed`, `Memory.listed_lines` — what the lines of a snapshot are;
* `Memory.ofText`, `Memory.ofText_text` — the memory read back;
* `Memory.text_faithful` — all of it.
-/

/-! ### Lines of a text -/

/-- The lines of a text in which every line ends in a line feed. -/
def linesOfText (t : String) : List String :=
  (t.toList.splitOn '\n').dropLast.map String.ofList

theorem toList_textOfLines (lines : List String) :
    (textOfLines lines).toList = (lines.map String.toList).flatMap (· ++ ['\n']) := by
  rw [textOfLines, String.toList_join]
  simp [List.flatMap_map]

theorem splitOn_lines {ls : List (List Char)} (h : ∀ l ∈ ls, '\n' ∉ l) :
    (ls.flatMap (· ++ ['\n'])).splitOn '\n' = ls ++ [[]] := by
  induction ls with
  | nil => rfl
  | cons l rest ih =>
    obtain ⟨hl, hrest⟩ := List.forall_mem_cons.1 h
    rw [List.flatMap_cons, List.append_assoc, List.singleton_append,
      List.splitOn_append_cons_self_of_not_mem hl, ih hrest]
    rfl

/-- A text made of lines has those lines, if no line has a line feed of its own. -/
theorem linesOfText_textOfLines {lines : List String} (h : ∀ l ∈ lines, '\n' ∉ l.toList) :
    linesOfText (textOfLines lines) = lines := by
  rw [linesOfText, toList_textOfLines, splitOn_lines (List.forall_mem_map.2 h),
    List.dropLast_concat, List.map_map]
  simp

namespace Memory

variable {m : Memory} {r a : Nat} {bytes : List UInt8}

/-! ### Rows -/

/-- The sixteen bytes of a row. -/
def row (m : Memory) (r : Nat) : List UInt8 :=
  (m.toList.drop (16 * r)).take 16

/-- Whether a row is all zero. -/
def rowIsBlank (m : Memory) (r : Nat) : Bool :=
  (m.row r).all (· == 0)

theorem length_row (hr : r < 256) : (m.row r).length = 16 := by
  rw [row, List.length_take, List.length_drop, Vector.length_toList]
  omega

theorem readList_eq_row (hr : r < 256) : m.readList (UInt16.ofNat (16 * r)) 16 = m.row r := by
  apply List.ext_getElem
  · rw [length_readList, length_row hr]
  · intro k hk hk'
    rw [length_readList] at hk
    have hplace : (16 * r + k) % 4096 = 16 * r + k := Nat.mod_eq_of_lt (by omega)
    simp [readList, row, read, hplace]

/-- The rows of the memory, each with its address. -/
theorem rows_eq (m : Memory) : m.rows = (List.range 256).map fun r => (16 * r, m.row r) :=
  List.map_congr_left fun r hr => by rw [readList_eq_row (List.mem_range.1 hr)]

/-- A byte of the memory is in the row of its address. -/
theorem getElem_eq_row {i : Nat} (hi : i < 4096) : m[i] = (m.row (i / 16)).getD (i % 16) 0 := by
  have hmod : i % 16 < 16 := Nat.mod_lt _ (by decide)
  simp [row, List.getD_eq_getElem?_getD, hmod, Nat.div_add_mod, hi]

/-! ### Characters of a line -/

/-- A blank and the two digits of a byte. -/
def byteSpelling (b : UInt8) : List Char :=
  [' ', Hex.digit (b.toNat / 16), Hex.digit (b.toNat % 16)]

/-- The characters of the line of a row: the three digits of the address, a colon, and the bytes. -/
def rowSpelling (address : Nat) (bytes : List UInt8) : List Char :=
  [Hex.digit (address / 256), Hex.digit (address / 16 % 16), Hex.digit (address % 16), ':']
    ++ bytes.flatMap byteSpelling

theorem padded_address (ha : a < 4096) :
    Hex.padded 3 a = [Hex.digit (a / 256), Hex.digit (a / 16 % 16), Hex.digit (a % 16)] := by
  rw [Hex.padded_succ (by decide), Hex.padded_succ (by decide), Hex.padded_one (by omega),
    Nat.div_div_eq_div_mul]
  rfl

theorem padded_byte (b : UInt8) :
    Hex.padded 2 b.toNat = [Hex.digit (b.toNat / 16), Hex.digit (b.toNat % 16)] := by
  have hb := b.toNat_lt
  rw [Hex.padded_succ (by decide), Hex.padded_one (by omega)]
  rfl

theorem toList_rowLine (ha : a < 4096) : (rowLine a bytes).toList = rowSpelling a bytes := by
  have hbyte : ∀ b : UInt8, (" " ++ Hex.text 2 b.toNat).toList = byteSpelling b := by
    intro b
    rw [String.toList_append, Hex.toList_text, padded_byte]
    rfl
  rw [rowLine, String.toList_append, String.toList_append, Hex.toList_text, padded_address ha,
    String.toList_join, List.flatMap_map]
  simp only [hbyte]
  rfl

/-- A line with a colon is no gap. -/
theorem rowLine_ne_gap : rowLine a bytes ≠ "..." := by
  intro h
  have hcolon : ':' ∈ (rowLine a bytes).toList := by simp [rowLine]
  rw [h] at hcolon
  exact absurd hcolon (by decide)

theorem newline_notMem_rowLine (ha : a < 4096) : '\n' ∉ (rowLine a bytes).toList := by
  have hdigit : ∀ k < 16, '\n' ≠ Hex.digit k := by decide
  rw [toList_rowLine ha, rowSpelling, List.mem_append, List.mem_flatMap, not_or]
  constructor
  · simp [hdigit (a / 256) (by omega), hdigit (a / 16 % 16) (by omega),
      hdigit (a % 16) (by omega)]
  · rintro ⟨b, -, hb⟩
    have hlt := b.toNat_lt
    simp [byteSpelling, hdigit (b.toNat / 16) (by omega), hdigit (b.toNat % 16) (by omega)] at hb

end Memory

/-! ### Blocks of rows -/

/-- The rows that one line stands for. -/
inductive Block where
  /-- A row that is listed. -/
  | row (r : Nat)
  /-- Rows that are left out. -/
  | gap (rows : List Nat)
deriving DecidableEq

namespace Block

/-- The rows of a block. -/
def rows : Block → List Nat
  | .row r => [r]
  | .gap rs => rs

/-- Whether a block is a gap. -/
def isGap : Block → Bool
  | .row _ => false
  | .gap _ => true

/-- The rows that are left out first thing. -/
def lead : List Block → List Nat
  | .gap rs :: _ => rs
  | _ => []

/-- Blocks without the gap that they start with. -/
def dropGap : List Block → List Block
  | .gap _ :: later => later
  | bs => bs

/-- Rows cut into blocks, given which of them are blank: a blank row is added to the gap that
follows it. -/
def ofRows (blank : Nat → Bool) : List Nat → List Block
  | [] => []
  | r :: rest =>
    if blank r then
      .gap (r :: lead (ofRows blank rest)) :: dropGap (ofRows blank rest)
    else
      .row r :: ofRows blank rest

variable {blank : Nat → Bool} {bs : List Block} {rs : List Nat}

theorem mem_of_mem_dropGap {b : Block} (h : b ∈ dropGap bs) : b ∈ bs := by
  match bs with
  | [] => exact h
  | .row _ :: _ => exact h
  | .gap _ :: _ => exact List.mem_cons_of_mem _ h

theorem lead_append_dropGap : lead bs ++ (dropGap bs).flatMap rows = bs.flatMap rows := by
  match bs with
  | [] => rfl
  | .row _ :: _ => rfl
  | .gap _ :: _ => rfl

/-- Blocks leave no row out and change no order. -/
theorem flatMap_ofRows : (ofRows blank rs).flatMap rows = rs := by
  induction rs with
  | nil => rfl
  | cons r rest ih =>
    rw [ofRows]
    split
    · rw [List.flatMap_cons, rows, List.cons_append, lead_append_dropGap, ih]
    · rw [List.flatMap_cons, rows, ih]
      rfl

/-- Whether a block is what the rows in it make of it. -/
def Fits (blank : Nat → Bool) : Block → Prop
  | .row r => blank r = false
  | .gap rs => rs ≠ [] ∧ ∀ r ∈ rs, blank r = true

theorem blank_of_mem_lead (h : ∀ b ∈ bs, b.Fits blank) : ∀ r ∈ lead bs, blank r = true := by
  match bs with
  | [] => exact fun r hr => absurd hr List.not_mem_nil
  | .row _ :: _ => exact fun r hr => absurd hr List.not_mem_nil
  | .gap rs :: _ => exact (h (.gap rs) List.mem_cons_self).2

theorem fits_ofRows : ∀ b ∈ ofRows blank rs, b.Fits blank := by
  induction rs with
  | nil => exact fun b hb => absurd hb List.not_mem_nil
  | cons r rest ih =>
    rw [ofRows]
    split
    case isTrue h =>
      refine List.forall_mem_cons.2 ⟨⟨List.cons_ne_nil _ _, ?_⟩, fun b hb => ?_⟩
      · exact List.forall_mem_cons.2 ⟨h, blank_of_mem_lead ih⟩
      · exact ih b (mem_of_mem_dropGap hb)
    case isFalse h => exact List.forall_mem_cons.2 ⟨Bool.eq_false_iff.2 h, ih⟩

/-- Whether no gap follows a gap. -/
def Apart (bs : List Block) : Prop :=
  bs.IsChain fun a b => ¬ (a.isGap = true ∧ b.isGap = true)

/-- What follows a gap starts with no gap. -/
theorem Apart.dropGap (h : Apart bs) :
    (∀ b ∈ (dropGap bs).head?, b.isGap = false) ∧ Apart (dropGap bs) := by
  match bs with
  | [] => exact ⟨nofun, h⟩
  | .row r :: _ =>
    refine ⟨fun b hb => ?_, h⟩
    cases hb
    rfl
  | .gap rs :: later =>
    obtain ⟨hhead, hlater⟩ := List.isChain_cons.1 h
    exact ⟨fun b hb => by simpa [isGap] using hhead b hb, hlater⟩

theorem apart_ofRows : Apart (ofRows blank rs) := by
  induction rs with
  | nil => exact List.isChain_nil
  | cons r rest ih =>
    rw [ofRows]
    split
    · obtain ⟨hhead, hlater⟩ := ih.dropGap
      refine List.isChain_cons.2 ⟨fun b hb hgaps => ?_, hlater⟩
      exact Bool.noConfusion ((hhead b hb).symm.trans hgaps.2)
    · exact List.isChain_cons.2 ⟨fun b _ hgaps => Bool.noConfusion hgaps.1, ih⟩

end Block

namespace Memory

variable {m : Memory}

/-! ### The lines of a snapshot -/

/-- The line of a block. -/
def blockLine (m : Memory) : Block → String
  | .row r => rowLine (16 * r) (m.row r)
  | .gap _ => "..."

theorem blockLine_eq_gap_iff {b : Block} : m.blockLine b = "..." ↔ b.isGap = true := by
  cases b with
  | row r => simp [blockLine, Block.isGap, rowLine_ne_gap]
  | gap rs => simp [blockLine, Block.isGap]

/-- Rows with their addresses. -/
def rowsAt (m : Memory) (rs : List Nat) : List (Nat × List UInt8) :=
  rs.map fun r => (16 * r, m.row r)

variable {r : Nat} {rest : List Nat} {gap : Bool}

/-- A blank row has no line of its own; the first of them has that of the gap. -/
theorem linesOfRows_of_blank (h : m.rowIsBlank r = true) :
    linesOfRows gap (m.rowsAt (r :: rest))
      = if gap then linesOfRows true (m.rowsAt rest)
        else "..." :: linesOfRows true (m.rowsAt rest) :=
  if_pos h

theorem linesOfRows_of_row (h : m.rowIsBlank r = false) :
    linesOfRows gap (m.rowsAt (r :: rest))
      = rowLine (16 * r) (m.row r) :: linesOfRows false (m.rowsAt rest) :=
  if_neg (Bool.eq_false_iff.1 h)

/-- Lines come from blocks. In the course of a gap, the gap has its line already. -/
theorem linesOfRows_eq (m : Memory) (rs : List Nat) :
    linesOfRows false (m.rowsAt rs) = (Block.ofRows m.rowIsBlank rs).map m.blockLine
      ∧ linesOfRows true (m.rowsAt rs)
        = (Block.dropGap (Block.ofRows m.rowIsBlank rs)).map m.blockLine := by
  induction rs with
  | nil => exact ⟨rfl, rfl⟩
  | cons r rest ih =>
    obtain ⟨ihrow, ihgap⟩ := ih
    rw [Block.ofRows]
    cases hr : m.rowIsBlank r with
    | true =>
      rw [linesOfRows_of_blank hr, linesOfRows_of_blank hr, ihgap]
      exact ⟨rfl, rfl⟩
    | false =>
      rw [linesOfRows_of_row hr, linesOfRows_of_row hr, ihrow]
      exact ⟨rfl, rfl⟩

/-- Without the gaps, the lines are those of the rows that are not blank. -/
theorem filter_linesOfRows (m : Memory) (gap : Bool) (rs : List Nat) :
    (linesOfRows gap (m.rowsAt rs)).filter (· ≠ "...")
      = (rs.filter fun r => !m.rowIsBlank r).map fun r => rowLine (16 * r) (m.row r) := by
  induction rs generalizing gap with
  | nil => rfl
  | cons r rest ih =>
    cases hr : m.rowIsBlank r with
    | true =>
      -- a gap has a line or has had it; the filter drops it either way
      rw [linesOfRows_of_blank hr, List.filter_cons_of_neg (by simp [hr])]
      cases gap with
      | true => exact ih true
      | false => exact (List.filter_cons_of_neg (by simp)).trans (ih true)
    | false =>
      rw [linesOfRows_of_row hr, List.filter_cons_of_pos (by simp [rowLine_ne_gap]), ih,
        List.filter_cons_of_pos (by simp [hr]), List.map_cons]

theorem lines_eq (m : Memory) : m.lines = linesOfRows false (m.rowsAt (List.range 256)) := by
  rw [lines, rows_eq]
  rfl

/-- The lines of a text are the lines of the snapshot. -/
theorem linesOfText_text (m : Memory) : linesOfText m.text = m.lines := by
  refine linesOfText_textOfLines fun l hl => ?_
  -- a line that is no gap is that of a row, by the filter
  by_cases hgap : l = "..."
  · rw [hgap]
    decide
  · have hrow : l ∈ m.lines.filter (· ≠ "...") := List.mem_filter.2 ⟨hl, by simpa using hgap⟩
    rw [lines_eq, filter_linesOfRows] at hrow
    obtain ⟨r, hr, rfl⟩ := List.mem_map.1 hrow
    have hlt := List.mem_range.1 (List.mem_of_mem_filter hr)
    exact newline_notMem_rowLine (by omega)

/-- What the lines of a snapshot are. -/
structure Listed (m : Memory) (lines : List String) : Prop where
  /-- Lines that are no gap: one for each row that is not blank, in order. -/
  rows : lines.filter (· ≠ "...") = ((List.range 256).filter fun r => !m.rowIsBlank r).map
    fun r => String.ofList (rowSpelling (16 * r) (m.row r))
  /-- A line for each row that is not blank and for each run of rows that are. -/
  blocks : ∃ bs : List Block, bs.flatMap Block.rows = List.range 256
    ∧ (∀ b ∈ bs, b.Fits m.rowIsBlank) ∧ lines = bs.map m.blockLine
  /-- No gap follows a gap. -/
  apart : lines.IsChain fun k l => ¬ (k = "..." ∧ l = "...")

theorem listed_lines (m : Memory) : m.Listed m.lines where
  rows := by
    rw [lines_eq, filter_linesOfRows]
    refine List.map_congr_left fun r hr => String.toList_inj.1 ?_
    have hlt := List.mem_range.1 (List.mem_of_mem_filter hr)
    rw [toList_rowLine (by omega), String.toList_ofList]
  blocks := ⟨_, Block.flatMap_ofRows, Block.fits_ofRows,
    (lines_eq m).trans (linesOfRows_eq m _).1⟩
  apart := by
    rw [lines_eq, (linesOfRows_eq m _).1, List.isChain_map]
    simp only [blockLine_eq_gap_iff]
    exact Block.apart_ofRows

/-! ### Reading a snapshot -/

/-- The bytes of a line after its colon. -/
def readBytes : List Char → List UInt8
  | _ :: h :: l :: rest => UInt8.ofNat (Hex.value [h, l]) :: readBytes rest
  | _ => []

/-- The address and the bytes of a line. -/
def readRow (line : String) : Nat × List UInt8 :=
  (Hex.value (line.toList.take 3), readBytes (line.toList.drop 4))

/-- The memory with rows at addresses, and zeros in all others. -/
def ofRows (rows : List (Nat × List UInt8)) : Memory :=
  Vector.ofFn fun i => ((rows.lookup (16 * (i.val / 16))).getD []).getD (i.val % 16) 0

/-- The memory that a snapshot is of. -/
def ofText (t : String) : Memory :=
  ofRows (((linesOfText t).filter (· ≠ "...")).map readRow)

theorem readBytes_spelling (bytes : List UInt8) :
    readBytes (bytes.flatMap byteSpelling) = bytes := by
  induction bytes with
  | nil => rfl
  | cons b rest ih =>
    have hfirst : readBytes (byteSpelling b ++ rest.flatMap byteSpelling)
        = UInt8.ofNat (Hex.value [Hex.digit (b.toNat / 16), Hex.digit (b.toNat % 16)])
          :: readBytes (rest.flatMap byteSpelling) := rfl
    rw [List.flatMap_cons, hfirst, ih, ← padded_byte, Hex.value_padded, UInt8.ofNat_toNat]

theorem readRow_rowSpelling {a : Nat} {bytes : List UInt8} (ha : a < 4096) :
    readRow (String.ofList (rowSpelling a bytes)) = (a, bytes) := by
  rw [readRow, String.toList_ofList]
  show (Hex.value [Hex.digit (a / 256), Hex.digit (a / 16 % 16), Hex.digit (a % 16)],
    readBytes _) = _
  rw [← padded_address ha, Hex.value_padded]
  exact congrArg (Prod.mk a) (readBytes_spelling bytes)

/-- The rows that a snapshot lists are read back with their addresses. -/
theorem readRows_text (m : Memory) :
    ((linesOfText m.text).filter (· ≠ "...")).map readRow
      = ((List.range 256).filter fun r => !m.rowIsBlank r).map fun r => (16 * r, m.row r) := by
  rw [linesOfText_text, (listed_lines m).rows, List.map_map]
  refine List.map_congr_left fun r hr => ?_
  have hlt := List.mem_range.1 (List.mem_of_mem_filter hr)
  exact readRow_rowSpelling (by omega)

theorem lookup_rows {f : Nat → List UInt8} {rs : List Nat} {q : Nat} :
    (rs.map fun r => (16 * r, f r)).lookup (16 * q) = if q ∈ rs then some (f q) else none := by
  induction rs with
  | nil => rfl
  | cons r rest ih =>
    rw [List.map_cons, List.lookup_cons, ih]
    by_cases h : q = r
    · subst h
      simp
    · have hne : (16 * q == 16 * r) = false := by
        rw [beq_eq_false_iff_ne]
        omega
      simp [hne, h]

/-- A byte of a blank row is zero. -/
theorem getD_row_of_blank {r k : Nat} (h : m.rowIsBlank r = true) : (m.row r).getD k 0 = 0 := by
  rw [List.getD_eq_getElem?_getD]
  cases hk : (m.row r)[k]? with
  | none => rfl
  | some b => exact beq_iff_eq.1 (List.all_eq_true.1 h b (List.mem_of_getElem? hk))

/-- A row that is not listed is blank, and one that is listed has its bytes in its line. -/
theorem ofText_text (m : Memory) : ofText m.text = m := by
  rw [ofText, readRows_text]
  apply Vector.ext
  intro i hi
  rw [ofRows, Vector.getElem_ofFn, lookup_rows, getElem_eq_row hi]
  cases hb : m.rowIsBlank (i / 16) with
  | true =>
    rw [if_neg (by simp [hb]), getD_row_of_blank hb]
    rfl
  | false =>
    rw [if_pos (List.mem_filter.2 ⟨List.mem_range.2 (by omega), by simp [hb]⟩), Option.getD_some]

/-- **The snapshot of the memory loses nothing**: whatever the memory holds, the lines of its text
are the rows that are not blank in order, each with its address and its bytes, and one gap for each
run of rows that are; reading them and filling up with zeros gives the memory back. So two machines
have the same text when they have the same memory, and at no other time. -/
theorem text_faithful :
    (∀ m : Memory, m.Listed (linesOfText m.text) ∧ ofText m.text = m)
      ∧ ∀ a b : Machine, a.memory.text = b.memory.text ↔ a.memory = b.memory := by
  refine ⟨fun m => ⟨linesOfText_text m ▸ listed_lines m, ofText_text m⟩, fun a b => ?_⟩
  constructor
  · intro h
    rw [← ofText_text a.memory, h, ofText_text]
  · intro h
    rw [h]

end Memory

end ChipEight
