import ChipEight.Proofs.Checked.Drawing

namespace ChipEight

/-!
# Agreement — the checked machine is the machine

As long as the depth of the call stack is within its capacity, the checked machine does what the
machine does: where the machine makes a step, no operation of the checked machine is refused and the
step is the same; where it faults, the checked machine is refused for the reason that the fault
stands for. What a host asks for besides is never refused.

* `Checked.mapM_eq` — lists of operations that are not refused;
* `Checked.decode_eq` — the fields of a word are nibbles;
* `Checked.call_eq`, `Checked.ret_eq` — the call stack, where refusals come from;
* `Checked.storeRegisters_eq`, `Checked.loadRegisters_eq`, `Checked.decimal_eq`, `Checked.glyph_eq`,
  `Checked.awaitKey_eq` — the other instructions that count places;
* `Checked.execute_eq`, `Checked.step_eq` — instructions and steps;
* `Checked.load_eq`, `Checked.isRunning_eq`, `Checked.stack_eq`, `Checked.registerText_eq`,
  `Checked.memoryText_eq`, `Checked.screenText_eq` — what a host asks for.
-/

/-- Bytes written one after the other, the last of them apart. -/
theorem Memory.writeList_concat (memory : Memory) (a : UInt16) (bs : List UInt8) (b : UInt8) :
    memory.writeList a (bs ++ [b])
      = (memory.writeList a bs).write (a + UInt16.ofNat bs.length) b := by
  induction bs generalizing memory a with
  | nil => simp
  | cons c rest ih =>
    rw [List.cons_append, writeList_cons, writeList_cons, ih, List.length_cons]
    congr 1
    rw [UInt16.ofNat_add, UInt16.add_assoc, UInt16.add_comm 1]
    rfl

namespace Checked

variable {α β : Type} {m : Machine} {x : Nibble} {a : UInt16}

/-- Operations on the members of a list, none of which is refused. -/
theorem mapM_eq {l : List α} {f : α → Checked β} {g : α → β} (h : ∀ a ∈ l, f a = .ok (g a)) :
    l.mapM f = .ok (l.map g) := by
  induction l with
  | nil => rfl
  | cons a rest ih =>
    have hrest := ih fun b hb => h b (List.mem_cons_of_mem a hb)
    rw [List.mapM_cons, h a List.mem_cons_self, ok_bind, hrest]
    rfl

/-! ### Fields of a word -/

/-- A byte with the value of a nibble is that nibble. -/
theorem nibble_eq {b : UInt8} {k : Nibble} (h : b.toNat = k.val) : nibble b = .ok k := by
  rw [nibble_of_lt (by omega)]
  congr 1
  exact Fin.ext h

/-- A field of four bits, masked out and shifted down. -/
theorem toNat_field (w mask shift : UInt16) (h : mask.toNat >>> (shift.toNat % 16) = 15) :
    ((w &&& mask) >>> shift).toUInt8.toNat = w.toNat >>> (shift.toNat % 16) % 16 := by
  rw [UInt16.toNat_toUInt8, UInt16.toNat_shiftRight, UInt16.toNat_and,
    Nat.shiftRight_and_distrib, h]
  rw [show 15 = 2 ^ 4 - 1 from rfl, Nat.and_two_pow_sub_one_eq_mod]
  omega

/-- The fields of a word are nibbles. -/
@[simp] theorem decode_eq (w : UInt16) : decode w = .ok (.decode w) := by
  have hx : nibble ((w &&& 0x0F00) >>> 8).toUInt8 = .ok (Word.x w) := by
    refine nibble_eq ((toNat_field w 0x0F00 8 rfl).trans ?_)
    show w.toNat >>> 8 % 16 = w.toNat / 256 % 16
    rw [Nat.shiftRight_eq_div_pow]
  have hy : nibble ((w &&& 0x00F0) >>> 4).toUInt8 = .ok (Word.y w) := by
    refine nibble_eq ((toNat_field w 0x00F0 4 rfl).trans ?_)
    show w.toNat >>> 4 % 16 = w.toNat / 16 % 16
    rw [Nat.shiftRight_eq_div_pow]
  have hlow : nibble (w &&& 0x000F).toUInt8 = .ok (Word.low w) := by
    have h := toNat_field w 0x000F 0 rfl
    rw [UInt16.shiftRight_zero] at h
    exact nibble_eq h
  rw [decode, hx, ok_bind, hy, ok_bind, hlow, ok_bind]

/-! ### The call stack -/

/-- A call is refused for want of a slot, and else takes one. -/
theorem call_eq (hd : m.stack.depth ≤ 16) :
    call m a =
      match m.stack.push? m.pc with
      | some s => .ok { m with pc := a, stack := s }
      | none => .error (.index 16 16) := by
  unfold CallStack.push?
  by_cases hlt : m.stack.depth < 16
  · have hsum : m.stack.depth + 1 < byteLimit := Nat.lt_trans (Nat.succ_lt_succ hlt) (by decide)
    rw [call, set_of_lt hlt, ok_bind, add_of_lt hsum, ok_bind, dif_pos hlt]
  · -- the slot that would be filled is the one after the last
    have h16 : m.stack.depth = 16 := by omega
    rw [call, set, dif_neg hlt, dif_neg hlt, h16, error_bind]

/-- A return is refused for want of an address, and else takes the newest. -/
theorem ret_eq (hd : m.stack.depth ≤ 16) :
    ret m =
      match m.stack.pop? with
      | some (a, s) => .ok { m with pc := a, stack := s }
      | none => .error .subOverflow := by
  unfold CallStack.pop?
  by_cases h0 : m.stack.depth = 0
  · rw [ret, sub, if_neg (by omega), error_bind, if_pos h0]
  · have hlt : m.stack.depth - 1 < 16 := by omega
    rw [ret, sub_of_le (by omega), ok_bind, get_of_lt hlt, ok_bind, if_neg h0]
    simp [List.getD_eq_getElem?_getD, hlt]

/-! ### Instructions that count places -/

/-- An operation on two registers is never refused. -/
@[simp] theorem combine_eq (m : Machine) (op : AluOp) (x y : Nibble) :
    combine m op x y = .ok { m with registers := m.registers.combine op x y } := by
  rw [combine, register_eq, ok_bind, register_eq, ok_bind, put_eq, ok_bind, Registers.combine]
  cases op.flag? (m.registers.get x) (m.registers.get y) with
  | some flag => exact put_eq _ _ _
  | none => rfl

/-- Five times a byte fits a word. -/
@[simp] theorem glyph_eq (m : Machine) (x : Nibble) :
    glyph m x = .ok { m with index := Glyph.address (m.registers.get x) } := by
  have hb := (m.registers.get x).toNat_lt
  have hmul : (m.registers.get x).toNat * Glyph.height < wordLimit := by
    show (m.registers.get x).toNat * 5 < 65536
    omega
  have hadd : Glyph.start + (m.registers.get x).toNat * Glyph.height < wordLimit := by
    rwa [show Glyph.start = 0 from rfl, Nat.zero_add]
  rw [glyph, register_eq, ok_bind, mul_of_lt hmul, ok_bind, add_of_lt hadd, ok_bind]
  rfl

/-- The address of the last digit is counted in sizes, where it fits, and wraps in words. -/
@[simp] theorem decimal_eq (m : Machine) (x : Nibble) : decimal m x = .ok (m.writeDecimal x) := by
  have hadd : m.index.toNat + 2 < sizeLimit := by
    have hi := m.index.toNat_lt
    show m.index.toNat + 2 < 18446744073709551616
    omega
  rw [decimal, register_eq, ok_bind, add_of_lt hadd, ok_bind, put_eq, ok_bind]
  simp only [write_eq, ok_bind]
  have hlast : m.index + 2 = m.index + 1 + 1 := by
    rw [UInt16.add_assoc]
    rfl
  show Except.ok { m with
    memory := ((m.memory.write m.index _).write (m.index + 1) _).write (m.index + 2) _
    registers := _ } = _
  rw [hlast]
  rfl

/-- Storing registers one by one stores all of them. -/
@[simp] theorem storeRegisters_eq (m : Machine) (x : Nibble) :
    storeRegisters m x = .ok (m.storeRegisters x) := by
  refine loop_eq (fun k =>
    { m with memory := m.memory.writeList m.index (m.registers.toList.take k) }) ?_
  intro k hk
  have hlt : k < 16 := by omega
  have htake : m.registers.toList.take (k + 1) = m.registers.toList.take k ++ [m.registers[k]] :=
    List.take_succ_eq_append_getElem (by simpa using hlt)
  have hlen : (m.registers.toList.take k).length = k := by
    simp
    omega
  rw [storeRegister, get_of_lt hlt, ok_bind, write_eq, ok_bind, htake, Memory.writeList_concat,
    hlen]

/-- Loading registers one by one loads all of them. -/
@[simp] theorem loadRegisters_eq (m : Machine) (x : Nibble) :
    loadRegisters m x = .ok (m.loadRegisters x) := by
  -- the machine after `k` rounds
  let loaded (k : Nat) : Machine :=
    { m with
      registers := m.registers.mapFinIdx fun i b _ =>
        if i < k then m.memory.read (m.index + UInt16.ofNat i) else b }
  have hstart : loaded 0 = m := by
    have hregisters : (m.registers.mapFinIdx fun i b _ =>
        if i < 0 then m.memory.read (m.index + UInt16.ofNat i) else b) = m.registers := by
      apply Vector.ext
      intro i hi
      simp
    simp only [loaded, hregisters]
  have hend : loaded (x.val + 1) = m.loadRegisters x := by
    simp only [loaded, Machine.loadRegisters, Nat.lt_succ_iff]
  have hround : ∀ k, k < x.val + 1 → loadRegister k (loaded k) = .ok (loaded (k + 1)) := by
    intro k hk
    have hlt : k < 16 := by omega
    rw [loadRegister, read_eq, ok_bind, set_of_lt hlt, ok_bind]
    simp only [loaded]
    congr 2
    apply Vector.ext
    intro i hi
    by_cases hik : k = i
    · simp [hik]
    · have hiff : i < k + 1 ↔ i < k := by omega
      rw [Vector.getElem_set_ne hlt hi hik, Vector.getElem_mapFinIdx, Vector.getElem_mapFinIdx]
      simp only [hiff]
  have hloop := loop_eq loaded hround
  rwa [hstart, hend] at hloop

/-- The place of a key among the sixteen is a nibble. -/
@[simp] theorem awaitKey_eq (m : Machine) (x : Nibble) :
    awaitKey m x =
      match m.keypad.firstDown with
      | some k => .ok (.proceeded, m.put x (Nibble.toByte k))
      | none => .ok (.waiting, { m with pc := m.pc - 2 }) := by
  -- the machine looks for a nibble, the checked machine for a place in the list of keys
  have hkeys : m.keypad.keys.toList = (List.finRange 16).map m.keypad.keys.get := by
    apply List.ext_getElem
    · simp
    · intro i hi _
      simp [Bank.get]
  have hfirst : m.keypad.firstDown
      = (m.keypad.keys.toList.findIdx? id).bind fun i => (List.finRange 16)[i]? := by
    rw [hkeys, List.findIdx?_map, Keypad.firstDown, List.find?_eq_bind_findIdx?_getElem?]
    rfl
  rw [awaitKey, hfirst]
  cases hi : m.keypad.keys.toList.findIdx? id with
  | none => rfl
  | some i =>
    have hlt : i < 16 := by
      obtain ⟨h, -⟩ := List.findIdx?_eq_some_iff_getElem.1 hi
      simpa using h
    have hk : (List.finRange 16)[i]? = some ⟨i, hlt⟩ := by
      simp [hlt]
    have hnibble : nibble (UInt8.ofNat i) = .ok ⟨i, hlt⟩ := by
      refine nibble_eq ?_
      simp
      omega
    simp [hk, hnibble]

/-! ### A step -/

/-- **Instructions agree.** The checked machine is refused where the machine faults, for the reason
that the fault stands for, and does the same where it does not. -/
theorem execute_eq (hd : m.stack.depth ≤ 16) (i : Instruction) :
    execute m i = (m.execute i).mapError Refusal.ofFault := by
  cases i
  case ret =>
    rw [execute, ret_eq hd, Machine.execute]
    cases m.stack.pop? <;> rfl
  case call a =>
    rw [execute, call_eq hd, Machine.execute]
    cases m.stack.push? m.pc <;> rfl
  case awaitKey x =>
    rw [execute, awaitKey_eq, Machine.execute]
    cases m.keypad.firstDown <;> rfl
  case draw x y n => rw [execute, draw_eq]; rfl
  -- what is left reads and writes registers, and those are all there
  all_goals
    simp only [execute, proceeded, register_eq, put_eq, combine_eq, glyph_eq, decimal_eq,
      storeRegisters_eq, loadRegisters_eq, ok_bind]
    rfl

/-- **Steps agree.** A fetch and the fields of its word are never refused, and neither are the
timers, so that a step is refused when its instruction is. -/
theorem step_eq (hd : m.stack.depth ≤ 16) : step m = m.step.mapError Refusal.ofFault := by
  have hfetched : fetched m = .ok m.fetched := by
    simp only [fetched, read_eq, ok_bind]
    rfl
  have hexecute := execute_eq (m := m.fetch) hd (.decode m.fetched)
  rw [step, hfetched, ok_bind, decode_eq, ok_bind, Machine.step]
  show (execute m.fetch (.decode m.fetched) >>= fun r => .ok (r.1, r.2.countDown)) = _
  rw [hexecute]
  cases m.fetch.execute (.decode m.fetched) <;> rfl

/-! ### What a host asks for -/

/-- No image of any length has a load refused. -/
theorem load_eq (m : Machine) (image : Array UInt8) : load m image = .ok (m.load image) := by
  rw [load, Machine.load]
  by_cases h0 : image.size = 0
  · rw [if_pos h0, if_pos h0]
  · by_cases hmax : Memory.maxProgramSize < image.size
    · rw [if_neg h0, if_neg h0, if_pos hmax, if_pos hmax]
    · have hsize : image.size ≤ 3584 := Nat.le_of_not_lt hmax
      have hstop : Memory.programStart + image.size < sizeLimit := by
        show 512 + image.size < 18446744073709551616
        omega
      have hend : Memory.programStart + image.size ≤ 4096 := by
        show 512 + image.size ≤ 4096
        omega
      have hlen : Memory.programStart + image.size - Memory.programStart = image.size :=
        Nat.add_sub_cancel_left _ _
      rw [if_neg h0, if_neg h0, if_neg hmax, if_neg hmax, add_of_lt hstop, ok_bind,
        if_neg (Nat.not_lt.2 (Nat.le_add_right _ _)), if_neg (Nat.not_lt.2 hend),
        if_neg (not_not_intro hlen)]

/-- The end of a program within the memory is a size. -/
theorem isRunning_eq (h : m.programSize ≤ 3584) : isRunning m = .ok m.isRunning := by
  have hstop : Memory.programStart + m.programSize < sizeLimit := by
    show 512 + m.programSize < 18446744073709551616
    omega
  rw [isRunning, add_of_lt hstop, ok_bind]
  rfl

/-- The slots below a depth within the capacity are all there. -/
theorem stack_eq (hd : m.stack.depth ≤ 16) : stack m = .ok m.stack.toList :=
  take_of_le hd

/-- The snapshot of the registers is not refused as long as the stack is within its capacity. -/
theorem registerText_eq (hd : m.stack.depth ≤ 16) : registerText m = .ok m.registerText := by
  have hpair : ∀ i : Fin 8, registerPair m i.val = .ok (m.registerPair i) := by
    intro i
    have hsum : i.val + 8 < sizeLimit := Nat.lt_trans (Nat.add_lt_add_right i.isLt 8) (by decide)
    rw [registerPair, get_of_lt (by omega), ok_bind, add_of_lt hsum, ok_bind, get_of_lt (by omega),
      ok_bind, Machine.registerPair]
    simp only [Bank.get, Nat.add_comm i.val 8]
    rfl
  rw [registerText, decode_eq, ok_bind, stack_eq hd, ok_bind, mapM_eq fun i _ => hpair i, ok_bind,
    Machine.registerText, Machine.registerLines, Machine.stackText]

/-- The addresses of rows are sizes. -/
theorem linesOfRows_eq (gap : Bool) (rows : List (Nat × List UInt8)) (h : ∀ r ∈ rows, r.1 < 256) :
    linesOfRows gap rows = .ok (Memory.linesOfRows gap (rows.map fun r => (16 * r.1, r.2))) := by
  induction rows generalizing gap with
  | nil => rfl
  | cons r rest ih =>
    obtain ⟨k, bytes⟩ := r
    have hk : k < 256 := h (k, bytes) List.mem_cons_self
    have hmul : k * 16 < sizeLimit := by
      show k * 16 < 18446744073709551616
      omega
    have hrest : ∀ r ∈ rest, r.1 < 256 := fun r hr => h r (List.mem_cons_of_mem _ hr)
    rw [linesOfRows, List.map_cons, Memory.linesOfRows]
    by_cases hb : (bytes.all (· == 0)) = true
    · rw [if_pos hb, if_pos hb, ih true hrest, ok_bind]
    · rw [if_neg hb, if_neg hb, mul_of_lt hmul, ok_bind, ih false hrest, ok_bind, Nat.mul_comm]

/-- The snapshot of the memory is never refused. -/
theorem memoryText_eq (memory : Memory) : memoryText memory = .ok memory.text := by
  -- the addresses of a row do not wrap, so that its bytes are where they are counted
  have hrow : ∀ k ∈ List.range 256, (do
      let bytes ← (List.range 16).mapM fun j => get memory (16 * k + j)
      .ok (k, bytes)) = (.ok (k, memory.readList (UInt16.ofNat (16 * k)) 16) : Checked _) := by
    intro k hk
    have hk' := List.mem_range.1 hk
    have hbyte : ∀ j ∈ List.range 16, get memory (16 * k + j)
        = .ok (memory.read (UInt16.ofNat (16 * k) + UInt16.ofNat j)) := by
      intro j hj
      have hj' := List.mem_range.1 hj
      have hslot : (UInt16.ofNat (16 * k) + UInt16.ofNat j).toNat % 4096 = 16 * k + j := by
        rw [← UInt16.ofNat_add, UInt16.toNat_ofNat']
        omega
      rw [get_of_lt (by omega)]
      simp only [Memory.read, Fin.getElem_fin, Memory.val_slot, hslot]
    rw [mapM_eq hbyte, ok_bind]
    rfl
  have hlines := linesOfRows_eq false
    ((List.range 256).map fun k => (k, memory.readList (UInt16.ofNat (16 * k)) 16)) (by
      intro r hr
      obtain ⟨k, hk, rfl⟩ := List.mem_map.1 hr
      exact List.mem_range.1 hk)
  rw [memoryText, mapM_eq hrow, ok_bind, hlines, ok_bind, List.map_map]
  rfl

/-- The snapshot of the screen is never refused. -/
theorem screenText_eq (s : Screen) : screenText s = .ok s.text := by
  have hline : ∀ y : Fin 32, (do
      let line ← (List.range 64).mapM fun x => pixel s y.val x
      .ok (String.ofList (line.map fun on => if on then '#' else '.')))
        = (.ok (Screen.rowLine s.rows[y]) : Checked String) := by
    intro y
    have hpixel : ∀ x ∈ List.range 64, pixel s y.val x = .ok (s.rows[y].getMsbD x) := by
      intro x hx
      rw [pixel_eq y.isLt (List.mem_range.1 hx), Screen.pixel_of_lt y.isLt]
      rfl
    rw [mapM_eq hpixel, ok_bind, List.map_map]
    rfl
  have hrows : s.rows.toList = (List.finRange 32).map fun y => s.rows[y] := by
    apply List.ext_getElem
    · simp
    · intro i hi _
      simp
  rw [screenText, mapM_eq fun y _ => hline y, ok_bind, Screen.text, hrows, List.map_map]
  rfl

end Checked

end ChipEight
