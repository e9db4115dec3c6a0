import Unwinding.Proofs.Expression.Refinement
import Unwinding.Proofs.Expression.Term

/-!
# The code of a term computes what the term is worth

Code that is a part of an expression goes from its first byte to behind its last one,
and puts one value on whatever stack it finds. This is shown by induction on the code of
a term, on the machine with lists; the number of operations and the most values that the
stack has on the way are counted along. The array machine keeps step as long as it has
room, so an expression that is the code of a term gives the value of the term.
-/

namespace Unwinding

open ValueStack (capacity)
open StackMachine (budget Setting)

section Operands

variable {space : AddressSpace} {span : Span}

theorem Reading.uleb128_of_writes {n : Word} {operand : List UInt8}
    (h : WritesUnsigned n.toNat operand) (hbegins : span.Begins space operand) :
    uleb128 space span = .ok n (span.after operand.length) :=
  uleb128_eq_ok.mpr ⟨operand, h, hbegins.offers, rfl⟩

theorem Reading.sleb128_of_writes {n : Int64} {operand : List UInt8}
    (h : WritesSigned n.toInt operand) (hbegins : span.Begins space operand) :
    sleb128 space span = .ok n (span.after operand.length) :=
  sleb128_of_run h.1 h.2 hbegins.offers

theorem Endian.encode_one (endian : Endian) (n : Nat) : endian.encode 1 n = [UInt8.ofNat n] := by
  cases endian <;> rfl

theorem Constant.read_of_writes {form : Constant} {value : Word} {operand : List UInt8}
    (h : form.Writes space.endian value operand) (hbegins : span.Begins space operand) :
    form.read space span = .ok value (span.after operand.length) := by
  cases form with
  | pointer => exact (Format.parses_read .pointer).complete hbegins ⟨trivial, h⟩
  | unsigned64 => exact (Format.parses_read .udata8).complete hbegins ⟨trivial, h⟩
  | signed64 => exact (Format.parses_read .sdata8).complete hbegins ⟨trivial, h⟩
  | unsigned16 => exact (Format.parses_read .udata2).complete hbegins h
  | unsigned32 => exact (Format.parses_read .udata4).complete hbegins h
  | signed16 => exact (Format.parses_read .sdata2).complete hbegins h
  | signed32 => exact (Format.parses_read .sdata4).complete hbegins h
  | unsigned8 =>
    obtain ⟨hvalue, rfl⟩ := h
    rw [Endian.encode_one] at hbegins ⊢
    have hwide : (UInt8.ofNat value.toNat).toUInt64 = value := by
      apply UInt64.toNat_inj.mp
      rw [UInt8.toNat_toUInt64, UInt8.toNat_ofNat_of_lt' hvalue]
    exact Reading.bind_eq_ok.mpr ⟨_, _, Reading.u8_of_begins hbegins,
      Reading.pure_eq_ok.mpr ⟨hwide, rfl⟩⟩
  | signed8 =>
    obtain ⟨hvalue, rfl⟩ := h
    rw [Endian.encode_one] at hbegins ⊢
    have hbyte : (UInt8.ofNat value.toNat).toInt8 = value.toInt64.toInt8 := by
      apply Int8.toBitVec_inj.mp
      change value.toBitVec.setWidth 8 = value.toBitVec.signExtend 8
      rw [BitVec.signExtend_eq_setWidth_of_le _ (by decide)]
    have hwide : value.toInt64.toInt8.toInt64 = value.toInt64 := by
      apply Int64.toInt_inj.mp
      rw [Int8.toInt_toInt64, Int64.toInt_toInt8]
      exact Int.bmod_eq_of_le hvalue.1 hvalue.2
    refine Reading.bind_eq_ok.mpr ⟨_, _, Reading.bind_eq_ok.mpr
      ⟨_, _, Reading.u8_of_begins hbegins, rfl⟩, ?_⟩
    rw [hbyte, hwide, UInt64.toUInt64_toInt64]
    rfl
  | unsignedLeb => exact Reading.uleb128_of_writes h hbegins
  | signedLeb =>
    exact Reading.bind_eq_ok.mpr ⟨value.toInt64, _, Reading.sleb128_of_writes h hbegins,
      Reading.pure_eq_ok.mpr ⟨UInt64.toUInt64_toInt64 value, rfl⟩⟩

end Operands

theorem Arch.number_le (arch : Arch) (s : Slot) : arch.number s ≤ windowCookie := by
  cases arch <;> cases s <;> simp [number, windowCookie, signState]
  all_goals grind

theorem RegisterFile.number_le_of_get {arch : Arch} {file : RegisterFile arch} {r : Register} {base : Word}
    (h : file.get r = .ok base) : r ≤ Arch.windowCookie := by
  unfold RegisterFile.get at h
  cases hslot : arch.slot r with
  | none =>
    rw [hslot] at h
    cases h
  | some s =>
    rw [← Arch.number_slot hslot]
    exact arch.number_le s

section Numbers

variable {r : Register}

theorem toNat_ofNat_of_number_le (h : r ≤ Arch.windowCookie) : (UInt64.ofNat r).toNat = r :=
  UInt64.toNat_ofNat_of_lt' (Nat.lt_of_le_of_lt h (by decide))

theorem registerNumber_of_number_le (h : r ≤ Arch.windowCookie) :
    StackMachine.registerNumber (UInt64.ofNat r) = r := by
  rw [StackMachine.registerNumber, toNat_ofNat_of_number_le h]
  exact Nat.min_eq_left (Nat.le_trans h (by decide))

end Numbers

namespace ListMachine

variable {arch : Arch} {setting : Setting arch} {pos : Word} {stack : List Word} {most n m : Nat}
  {list list' last : ListMachine} {initial : Word}

/-- A run of some operations, on which there are never more than `most` values. -/
inductive Path (setting : Setting arch) (most : Nat) : Nat → ListMachine → ListMachine → Prop
  | nil {list : ListMachine} : list.stack.length ≤ most → Path setting most 0 list list
  | cons {n : Nat} {list list' last : ListMachine} : list.stack.length ≤ most →
      list.pos ≠ setting.code.stop → next setting list = .ok list' →
      Path setting most n list' last → Path setting most (n + 1) list last

theorem Path.append (h : Path setting most n list list') (h' : Path setting most m list' last) :
    Path setting most (n + m) list last := by
  induction h with
  | nil => simpa using h'
  | @cons n _ _ _ hlength hpos hnext _ ih =>
    rw [Nat.add_right_comm]
    exact .cons hlength hpos hnext (ih h')

theorem Path.last_le (h : Path setting most n list last) : last.stack.length ≤ most := by
  induction h with
  | nil hlast => exact hlast
  | cons _ _ _ _ ih => exact ih

theorem Path.reached (h : Path setting most m list last) (hmost : most ≤ capacity)
    (hreached : Reached setting initial n list) (hfits : Fits setting initial n) :
    Reached setting initial (n + m) last ∧ Fits setting initial (n + m) := by
  induction h generalizing n with
  | nil => exact ⟨hreached, hfits⟩
  | @cons m list list' last hlength hpos hnext hrest ih =>
    have hreached' : Reached setting initial (n + 1) list' := .step hreached hpos hnext
    have hlength' : list'.stack.length ≤ most := by
      cases hrest with
      | nil hlast => exact hlast
      | cons hfirst => exact hfirst
    rw [Nat.add_comm m 1, ← Nat.add_assoc]
    exact ih hreached' (hfits.succ hreached' (Nat.le_trans hlength' hmost))

/-- The bytes at `pos` are a part of the code. -/
structure Located (setting : Setting arch) (pos : Word) (code : List UInt8) : Prop where
  inside : setting.code.start ≤ pos
  begins : (⟨pos, setting.code.stop⟩ : Span).Begins setting.space code

namespace Located

variable {code front behind : List UInt8} {opcode : UInt8}

theorem toNat_add (h : Located setting pos code) :
    (pos + UInt64.ofNat code.length).toNat = pos.toNat + code.length :=
  Reading.toNat_add_ofNat (Nat.lt_of_le_of_lt h.begins.room setting.code.stop.toNat_lt)

theorem left (h : Located setting pos (front ++ behind)) : Located setting pos front :=
  ⟨h.inside, h.begins.left⟩

theorem right (h : Located setting pos (front ++ behind)) :
    Located setting (pos + UInt64.ofNat front.length) behind where
  inside := by
    have hmoved := h.left.toNat_add
    have hinside := h.inside
    rw [UInt64.le_iff_toNat_le] at hinside ⊢
    omega
  begins := h.begins.right

theorem head (h : Located setting pos (opcode :: behind)) : Located setting pos [opcode] := by
  have hcode : Located setting pos ([opcode] ++ behind) := h
  exact hcode.left

theorem tail (h : Located setting pos (opcode :: behind)) : Located setting (pos + 1) behind := by
  have hcode : Located setting pos ([opcode] ++ behind) := h
  exact hcode.right

theorem pos_le (h : Located setting pos code) : pos ≤ setting.code.stop := by
  have hroom := h.begins.room
  rw [UInt64.le_iff_toNat_le]
  exact Nat.le_trans (Nat.le_add_right _ _) hroom

theorem pos_ne (h : Located setting pos (opcode :: behind)) : pos ≠ setting.code.stop := by
  have hroom : pos.toNat + (behind.length + 1) ≤ setting.code.stop.toNat := h.begins.room
  intro hend
  rw [hend] at hroom
  omega

theorem fetch {α : Type} {read : Reading MemoryError α} {a : α} (h : Located setting pos code)
    (hconfined : read.Confined)
    (hread : read setting.space ⟨pos, setting.code.stop⟩ =
      .ok a ((⟨pos, setting.code.stop⟩ : Span).after code.length)) :
    ListMachine.fetch setting read pos = .ok (a, pos + UInt64.ofNat code.length) := by
  have hsame := hconfined.same setting.space setting.code.start setting.code.stop
    ⟨pos, setting.code.stop⟩ h.inside h.pos_le (UInt64.le_refl _)
  unfold ListMachine.fetch
  rw [hsame, hread]
  rfl

theorem fetch_byte (h : Located setting pos [opcode]) :
    ListMachine.fetch setting Reading.u8 pos = .ok (opcode, pos + 1) :=
  h.fetch Reading.confined_u8 (Reading.u8_of_begins h.begins)

theorem next (h : Located setting pos (opcode :: behind)) {operation : Operation}
    (hoperation : Operation.ofByte opcode = .ok operation) (stack : List Word) :
    ListMachine.next setting ⟨pos, stack⟩ =
      effect setting opcode operation ⟨pos + 1, stack⟩ := by
  unfold ListMachine.next
  rw [h.head.fetch_byte]
  change (Operation.ofByte opcode >>= fun operation =>
    effect setting opcode operation ⟨pos + 1, stack⟩) = _
  rw [hoperation]
  rfl

theorem operation {operand : List UInt8} {operation : Operation} {stack' : List Word}
    (h : Located setting pos (opcode :: operand)) (hpath : Path setting most n list ⟨pos, stack⟩)
    (hoperation : Operation.ofByte opcode = .ok operation)
    (heffect : effect setting opcode operation ⟨pos + 1, stack⟩ =
      .ok ⟨pos + 1 + UInt64.ofNat operand.length, stack'⟩)
    (hlength : stack'.length ≤ most) :
    Path setting most (n + 1) list ⟨pos + UInt64.ofNat (opcode :: operand).length, stack'⟩ := by
  have hend : pos + UInt64.ofNat (opcode :: operand).length =
      pos + 1 + UInt64.ofNat operand.length := by
    rw [List.length_cons, Nat.add_comm, UInt64.ofNat_add, UInt64.add_assoc]
    rfl
  have hnext := (h.next hoperation stack).trans heffect
  rw [← hend] at hnext
  exact hpath.append (.cons hpath.last_le h.pos_ne hnext (.nil hlength))

theorem operation_alone {operation : Operation} {stack' : List Word}
    (h : Located setting pos [opcode]) (hpath : Path setting most n list ⟨pos, stack⟩)
    (hoperation : Operation.ofByte opcode = .ok operation)
    (heffect : effect setting opcode operation ⟨pos + 1, stack⟩ = .ok ⟨pos + 1, stack'⟩)
    (hlength : stack'.length ≤ most) :
    Path setting most (n + 1) list ⟨pos + UInt64.ofNat [opcode].length, stack'⟩ := by
  apply h.operation hpath hoperation _ hlength
  rw [heffect, List.length_nil]
  exact congrArg (fun pos => Except.ok (ListMachine.mk pos _)) (UInt64.add_zero _).symm

theorem leaf {operand : List UInt8} {operation : Operation} {value : Word}
    (h : Located setting pos (opcode :: operand))
    (hoperation : Operation.ofByte opcode = .ok operation)
    (heffect : effect setting opcode operation ⟨pos + 1, stack⟩ =
      .ok ⟨pos + 1 + UInt64.ofNat operand.length, value :: stack⟩)
    (hlength : stack.length + 1 ≤ most) :
    Path setting most 1 ⟨pos, stack⟩
      ⟨pos + UInt64.ofNat (opcode :: operand).length, value :: stack⟩ :=
  h.operation (.nil (Nat.le_of_succ_le hlength)) hoperation heffect hlength

end Located

section Opcodes

theorem ofByte_literal : ∀ n < 32, Operation.ofByte (UInt8.ofNat (0x30 + n)) =
    .ok (.literal (UInt64.ofNat n)) := by
  decide

theorem ofByte_based : ∀ r < 32, Operation.ofByte (UInt8.ofNat (0x70 + r)) = .ok (.based r) := by
  decide

theorem ofByte_constant (form : Constant) :
    Operation.ofByte form.opcode = .ok (.constant form) := by
  cases form <;> rfl

theorem ofByte_unary (op : UnaryOp) : Operation.ofByte op.opcode = .ok (.unary op) := by
  cases op <;> rfl

theorem ofByte_binary (op : BinaryOp) : Operation.ofByte op.opcode = .ok (.binary op) := by
  cases op <;> rfl

end Opcodes

theorem loaded_of_stored {size : LoadSize} {address value : Word}
    (h : setting.space.stored address size.count = some value) :
    loaded setting (UInt8.ofNat size.count) address = .ok value := by
  obtain ⟨n, hn, hnumber, rfl⟩ := AddressSpace.number_of_stored h
  cases size with
  | one =>
    have hget : setting.space.get8 address = .ok (UInt8.ofNat n) :=
      congrArg (Except.map UInt8.ofNat) hnumber
    change ((setting.space.get8 address).map (·.toUInt64)).mapError ExpressionError.memory = _
    rw [hget]
    exact congrArg Except.ok (UInt8.toUInt64_ofNat' hn)
  | two =>
    have hget : setting.space.get16 address = .ok (UInt16.ofNat n) :=
      congrArg (Except.map UInt16.ofNat) hnumber
    change ((setting.space.get16 address).map (·.toUInt64)).mapError ExpressionError.memory = _
    rw [hget]
    exact congrArg Except.ok (UInt16.toUInt64_ofNat' hn)
  | four =>
    have hget : setting.space.get32 address = .ok (UInt32.ofNat n) :=
      congrArg (Except.map UInt32.ofNat) hnumber
    change ((setting.space.get32 address).map (·.toUInt64)).mapError ExpressionError.memory = _
    rw [hget]
    exact congrArg Except.ok (UInt32.toUInt64_ofNat' hn)
  | eight =>
    have hget : setting.space.get64 address = .ok (UInt64.ofNat n) :=
      congrArg (Except.map UInt64.ofNat) hnumber
    change (setting.space.get64 address).mapError ExpressionError.memory = _
    rw [hget]
    rfl

theorem add_length_append (pos : Word) (front behind : List UInt8) :
    pos + UInt64.ofNat (front ++ behind).length =
      pos + UInt64.ofNat front.length + UInt64.ofNat behind.length := by
  rw [List.length_append, UInt64.ofNat_add, UInt64.add_assoc]

section Effects

variable {opcode : UInt8} {operand : List UInt8} {value base address : Word} {r : Register}
  {offset : Int64}

theorem effect_constant {form : Constant} (h : Located setting pos operand)
    (hwrites : form.Writes setting.space.endian value operand) :
    effect setting opcode (.constant form) ⟨pos, stack⟩ =
      .ok ⟨pos + UInt64.ofNat operand.length, value :: stack⟩ := by
  have hread := Constant.read_of_writes hwrites h.begins
  dsimp only [effect]
  rw [h.fetch form.confined_read hread]
  rfl

theorem effect_based (h : Located setting pos operand) (hoffset : WritesSigned offset.toInt operand)
    (hbase : setting.file.get r = .ok base) :
    effect setting opcode (.based r) ⟨pos, stack⟩ =
      .ok ⟨pos + UInt64.ofNat operand.length, (base + offset.toUInt64) :: stack⟩ := by
  have hread := Reading.sleb128_of_writes hoffset h.begins
  dsimp only [effect]
  rw [register, hbase]
  change (fetch setting Reading.sleb128 pos >>= _) = _
  rw [h.fetch Reading.confined_sleb128 hread]
  rfl

theorem effect_basedOperand {number : List UInt8} (h : Located setting pos (number ++ operand))
    (hnumber : WritesUnsigned r number) (hoffset : WritesSigned offset.toInt operand)
    (hbase : setting.file.get r = .ok base) :
    effect setting opcode .basedOperand ⟨pos, stack⟩ =
      .ok ⟨pos + UInt64.ofNat (number ++ operand).length,
        (base + offset.toUInt64) :: stack⟩ := by
  have hread := Reading.sleb128_of_writes hoffset h.right.begins
  have hle := RegisterFile.number_le_of_get hbase
  rw [← toNat_ofNat_of_number_le hle] at hnumber
  have hregister := Reading.uleb128_of_writes hnumber h.left.begins
  dsimp only [effect]
  rw [h.left.fetch Reading.confined_uleb128 hregister]
  change (register setting (StackMachine.registerNumber (UInt64.ofNat r)) >>= _) = _
  rw [registerNumber_of_number_le hle, register, hbase]
  change (fetch setting Reading.sleb128 (pos + UInt64.ofNat number.length) >>= _) = _
  rw [h.right.fetch Reading.confined_sleb128 hread, add_length_append]
  rfl

theorem effect_deref (pos : Word) (stack : List Word)
    (hstored : setting.space.stored address 8 = some value) :
    effect setting opcode .deref ⟨pos, address :: stack⟩ = .ok ⟨pos, value :: stack⟩ := by
  have hsize : setting.space.stored address LoadSize.eight.count = some value := hstored
  have hload : loaded setting 8 address = .ok value := loaded_of_stored hsize
  dsimp only [effect]
  rw [hload]
  rfl

theorem effect_derefSize {size : LoadSize} (h : Located setting pos [UInt8.ofNat size.count])
    (hstored : setting.space.stored address size.count = some value) :
    effect setting opcode .derefSize ⟨pos, address :: stack⟩ =
      .ok ⟨pos + 1, value :: stack⟩ := by
  dsimp only [effect]
  rw [h.fetch_byte]
  change (loaded setting (UInt8.ofNat size.count) address >>= _) = _
  rw [loaded_of_stored hstored]
  rfl

theorem effect_plusConstant {n : Word} (h : Located setting pos operand)
    (hn : WritesUnsigned n.toNat operand) :
    effect setting opcode .plusConstant ⟨pos, value :: stack⟩ =
      .ok ⟨pos + UInt64.ofNat operand.length, (value + n) :: stack⟩ := by
  dsimp only [effect]
  rw [h.fetch Reading.confined_uleb128 (Reading.uleb128_of_writes hn h.begins)]
  rfl

theorem effect_binary {op : BinaryOp} {second top : Word}
    (h : op.apply second top = .ok value) :
    effect setting opcode (.binary op) ⟨pos, top :: second :: stack⟩ =
      .ok ⟨pos, value :: stack⟩ := by
  dsimp only [effect]
  rw [h]
  rfl

end Effects

section Compiled

variable {operators : BinaryOp → Word → Word → Option Word} {t : Term} {code : List UInt8}
  {value : Word}

theorem path_of_code
    (hperformed : ∀ {op second top value}, operators op second top = some value →
      op.apply second top = .ok value)
    (h : t.Code setting.space.endian code)
    (hvalue : t.value operators setting.space setting.file = some value)
    (hlocated : Located setting pos code) (hroom : stack.length + t.slots ≤ most) :
    Path setting most t.operations ⟨pos, stack⟩
      ⟨pos + UInt64.ofNat code.length, value :: stack⟩ := by
  induction h generalizing pos stack value with
  | literal hlt =>
    cases hvalue
    have hoperation := ofByte_literal _ hlt
    rw [UInt64.ofNat_toNat] at hoperation
    exact hlocated.operation_alone (.nil (Nat.le_of_succ_le hroom)) hoperation rfl hroom
  | constant hwrites =>
    cases hvalue
    exact hlocated.leaf (ofByte_constant _) (effect_constant hlocated.tail hwrites) hroom
  | based hlt hoffset =>
    obtain ⟨base, hbase, rfl⟩ := Term.exists_base hvalue
    exact hlocated.leaf (ofByte_based _ hlt) (effect_based hlocated.tail hoffset hbase) hroom
  | basedOperand hnumber hoffset =>
    obtain ⟨base, hbase, rfl⟩ := Term.exists_base hvalue
    exact hlocated.leaf rfl (effect_basedOperand hlocated.tail hnumber hoffset hbase) hroom
  | deref _ ih =>
    obtain ⟨address, haddress, hstored⟩ := Option.bind_eq_some_iff.mp hvalue
    have hpath := ih haddress hlocated.left hroom
    rw [add_length_append]
    exact hlocated.right.operation_alone hpath rfl (effect_deref _ _ hstored) hpath.last_le
  | derefSize _ ih =>
    obtain ⟨address, haddress, hstored⟩ := Option.bind_eq_some_iff.mp hvalue
    have hpath := ih haddress hlocated.left hroom
    rw [add_length_append]
    exact hlocated.right.operation hpath rfl (effect_derefSize hlocated.right.tail hstored)
      hpath.last_le
  | @unary op _ _ _ ih =>
    obtain ⟨operand, hoperand, hvalue⟩ := Option.bind_eq_some_iff.mp hvalue
    cases hvalue
    have hpath := ih hoperand hlocated.left hroom
    rw [add_length_append, ← op.apply_eq_arithmetic]
    exact hlocated.right.operation_alone hpath (ofByte_unary op) rfl hpath.last_le
  | plusConstant _ hn ih =>
    obtain ⟨augend, haugend, hvalue⟩ := Option.bind_eq_some_iff.mp hvalue
    cases hvalue
    have hpath := ih haugend hlocated.left hroom
    rw [add_length_append, UInt64.ofInt_add, ofInt_toNat, ofInt_toNat]
    exact hlocated.right.operation hpath rfl (effect_plusConstant hlocated.right.tail hn)
      hpath.last_le
  | @binary op second top code code' _ _ ih ih' =>
    obtain ⟨left, hleft, hvalue⟩ := Option.bind_eq_some_iff.mp hvalue
    obtain ⟨right, hright, hvalue⟩ := Option.bind_eq_some_iff.mp hvalue
    have hslots : stack.length + max second.slots (top.slots + 1) ≤ most := hroom
    have hroomSecond : stack.length + second.slots ≤ most := by omega
    have hroomTop : (left :: stack).length + top.slots ≤ most := by
      rw [List.length_cons]
      omega
    have hpath := ih hleft hlocated.left hroomSecond
    have hpath' := ih' hright hlocated.right.left hroomTop
    have hlength : (value :: stack).length ≤ most := Nat.le_of_succ_le hpath'.last_le
    rw [add_length_append, add_length_append]
    exact hlocated.right.right.operation_alone (hpath.append hpath') (ofByte_binary op)
      (effect_binary (hperformed hvalue)) hlength

end Compiled

end ListMachine

namespace Expression

variable {arch : Arch} {space : AddressSpace} {file : RegisterFile arch} {code : Expression}
  {operators : BinaryOp → Word → Word → Option Word} {t : Term} {bytes : List UInt8}
  {value : Word}

theorem evaluate_of_code
    (hperformed : ∀ {op second top value}, operators op second top = some value →
      op.apply second top = .ok value)
    (hcode : t.Code space.endian bytes) (hvalue : t.value operators space file = some value)
    (hstored : space.Stores code.start bytes) (hlength : code.length.toNat = bytes.length)
    (hsize : code.start.toNat + code.length.toNat < UInt64.size)
    (hoperations : t.operations ≤ budget) (hslots : t.slots + 1 ≤ capacity) (initial : Word) :
    code.evaluate space file initial = .ok value := by
  have hstop : code.start + UInt64.ofNat bytes.length = code.stop := by
    rw [← hlength, UInt64.ofNat_toNat]
    rfl
  have hroom : code.stop.toNat = code.start.toNat + bytes.length := by
    rw [← hstop, Reading.toNat_add_ofNat (hlength ▸ hsize)]
  have hlocated : ListMachine.Located ⟨space, file, code⟩ code.start bytes :=
    ⟨UInt64.le_refl _, hstored, Nat.le_of_eq hroom.symm⟩
  have hslots : [initial].length + t.slots ≤ capacity := by
    rw [Nat.add_comm]
    exact hslots
  have hpath := ListMachine.path_of_code hperformed hcode hvalue hlocated hslots
  have hrun := hpath.reached (Nat.le_refl _) .start ListMachine.fits_zero
  rw [Nat.zero_add] at hrun
  rw [evaluate_of_end (start_le_stop hsize) hrun.1 hrun.2 hoperations hstop]

/-- The code of a term gives what the term is worth, whatever the initial value is. -/
theorem evaluate_term (hcode : t.Code space.endian bytes)
    (hvalue : t.value BinaryOp.arithmetic space file = some value)
    (hstored : space.Stores code.start bytes) (hlength : code.length.toNat = bytes.length)
    (hsize : code.start.toNat + code.length.toNat < UInt64.size)
    (hoperations : t.operations ≤ 10000) (hslots : t.slots ≤ 99) (initial : Word) :
    code.evaluate space file initial = .ok value :=
  evaluate_of_code BinaryOp.apply_of_arithmetic hcode hvalue hstored hlength hsize hoperations
    (Nat.succ_le_succ hslots) initial

/-- Is the least integer, loaded from above the stack pointer, not below its quotient by
minus one? -/
def quotientTerm : Term :=
  let least := .load .eight (.based 7 8)
  .binary .ge least (.binary .div least (.constant (-1)))

/-- The offset is written in one byte and in three. -/
def quotientCode : List UInt8 :=
  [0x77, 0x08, 0x06, 0x92, 0x07, 0x88, 0x80, 0x00, 0x94, 0x08, 0x09, 0xff, 0x1b, 0x2a]

def quotientMemory : Snapshot where
  endian := .little
  regions := [⟨0x1000, quotientCode⟩, ⟨0x2008, [0, 0, 0, 0, 0, 0, 0, 0x80]⟩]

theorem code_quotient : quotientTerm.Code .little quotientCode := by
  have hoffset : WritesSigned (8 : Int64).toInt [0x08] := ⟨by decide, by decide⟩
  have hoffset' : WritesSigned (8 : Int64).toInt [0x88, 0x80, 0x00] := ⟨by decide, by decide⟩
  have hleast : (Term.load .eight (.based 7 8)).Code .little [0x77, 0x08, 0x06] :=
    .deref (.based (by decide) hoffset)
  have hnumber : WritesUnsigned 7 [0x07] := ⟨by decide, by decide⟩
  have hleast' : (Term.load .eight (.based 7 8)).Code .little
      [0x92, 0x07, 0x88, 0x80, 0x00, 0x94, 0x08] := .derefSize (.basedOperand hnumber hoffset')
  have hone : Constant.signed8.Writes .little (-1) [0xff] := ⟨by decide, rfl⟩
  exact .binary hleast (.binary hleast' (.constant hone))

theorem evaluate_term_quotient :
    quotientTerm.Code .little quotientCode ∧
      evaluate ⟨0x1000, 14⟩ quotientMemory.space
        (RegisterFile.zero.setSp 0x2000 : RegisterFile .x86_64) 5 = .ok 1 := by
  have hvalue : quotientTerm.value BinaryOp.arithmetic quotientMemory.space
      (RegisterFile.zero.setSp 0x2000 : RegisterFile .x86_64) = some 1 := by decide +kernel
  have hstored : quotientMemory.space.Stores (Expression.mk 0x1000 14).start quotientCode :=
    Snapshot.stores_region .little ⟨0x1000, quotientCode⟩ _ (by decide)
  exact ⟨code_quotient, evaluate_term code_quotient hvalue hstored rfl (by decide) (by decide)
    (by decide) 5⟩

end Expression

end Unwinding
