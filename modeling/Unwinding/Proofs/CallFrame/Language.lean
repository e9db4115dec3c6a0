import Unwinding.CallFrame.Instruction
import Unwinding.Proofs.Reading.Spelling

/-!
# The language of call frame instructions

An instruction is an opcode and the operands that the opcode asks for, each stored
in the way of its kind. The opcodes are laid down in a table, and the language is
what the table says: a stream is in it if it is cut into instructions from its
first byte to its last.

Decoding a stream gives the instructions that it spells, and it spells all that
is decoded.
-/

namespace Unwinding

/-- How an operand is stored. -/
inductive OperandKind where
  /-- The number of a register. -/
  | column
  | unsigned
  | signed
  | byte
  | half
  | word
  /-- An address, in the encoding of the dialect. -/
  | pointer
  /-- A block of code, with its length in front. -/
  | block
  deriving Repr, DecidableEq

namespace OperandKind

/-- What an operand of the kind stands for. -/
abbrev Value : OperandKind → Type
  | column => Register
  | unsigned | pointer => Word
  | signed => Int64
  | byte => UInt8
  | half => UInt16
  | word => UInt32
  | block => Expression

/-- How operands of the kind are spelled. -/
def spells (forms : LebForms) (dialect : Dialect) : (kind : OperandKind) → Grammar kind.Value
  | column => fun _ _ register bytes =>
    register < UInt16.size ∧ forms.unsigned (UInt64.ofNat register) bytes
  | unsigned => fun _ _ n bytes => forms.unsigned n bytes
  | signed => fun _ _ n bytes => forms.signed n bytes
  | byte => fun _ _ n bytes => bytes = [n]
  | half => fun space _ n bytes => bytes = space.endian.encode 2 n.toNat
  | word => fun space _ n bytes => bytes = space.endian.encode 4 n.toNat
  | pointer => dialect.pointerEncoding.spells forms dialect.bases
  | block => fun _ address expression bytes =>
    ∃ front content, bytes = front ++ content ∧ forms.unsigned expression.length front ∧
      content.length = expression.length.toNat ∧
      expression.start = address + UInt64.ofNat front.length

/-- The decoder for operands of the kind. -/
def read (dialect : Dialect) : (kind : OperandKind) → Reading CfiError kind.Value
  | column => Instruction.column
  | unsigned => Reading.uleb128
  | signed => Reading.sleb128
  | byte => Reading.u8
  | half => Reading.u16
  | word => Reading.u32
  | pointer => Reading.encodedPointer dialect.pointerEncoding dialect.bases
  | block => Instruction.block

end OperandKind

/-- Operands of these kinds, one behind another. -/
abbrev Operands : List OperandKind → Type
  | [] => Unit
  | kind :: kinds => kind.Value × Operands kinds

namespace Operands

def spells (forms : LebForms) (dialect : Dialect) :
    (kinds : List OperandKind) → Grammar (Operands kinds)
  | [] => .only ()
  | kind :: kinds =>
    (kind.spells forms dialect).andThen fun value =>
      (spells forms dialect kinds).map fun values => (value, values)

def read (dialect : Dialect) : (kinds : List OperandKind) → Reading CfiError (Operands kinds)
  | [] => return ()
  | kind :: kinds => do
    let value ← kind.read dialect
    let values ← read dialect kinds
    return (value, values)

end Operands

/-- What follows an opcode, and what it means. -/
structure InstructionForm where
  kinds : List OperandKind
  meaning : Operands kinds → Instruction

namespace Dialect

/-- The opcodes that take a whole byte. -/
def wholeForm (dialect : Dialect) : (opcode : UInt8) → Option InstructionForm
  | 0x00 => some ⟨[], fun _ => .nop⟩
  | 0x01 => some ⟨[.pointer], fun (target, _) => .setLocation target⟩
  | 0x02 => some ⟨[.byte], fun (n, _) => .advance (n.toUInt64 * dialect.codeFactor)⟩
  | 0x03 => some ⟨[.half], fun (n, _) => .advance (n.toUInt64 * dialect.codeFactor)⟩
  | 0x04 => some ⟨[.word], fun (n, _) => .advance (n.toUInt64 * dialect.codeFactor)⟩
  | 0x05 => some ⟨[.column, .unsigned], fun (r, n, _) => .offset r (n.toInt64 * dialect.dataFactor)⟩
  | 0x06 => some ⟨[.column], fun (r, _) => .restore r⟩
  | 0x07 => some ⟨[.column], fun (r, _) => .undefined r⟩
  | 0x08 => some ⟨[.column], fun (r, _) => .sameValue r⟩
  | 0x09 => some ⟨[.column, .column], fun (r, source, _) => .register r source⟩
  | 0x0a => some ⟨[], fun _ => .rememberState⟩
  | 0x0b => some ⟨[], fun _ => .restoreState⟩
  | 0x0c => some ⟨[.column, .unsigned], fun (r, n, _) => .defCfa r n.toInt64⟩
  | 0x0d => some ⟨[.column], fun (r, _) => .defCfaRegister r⟩
  | 0x0e => some ⟨[.unsigned], fun (n, _) => .defCfaOffset n.toInt64⟩
  | 0x0f => some ⟨[.block], fun (code, _) => .defCfaExpression code⟩
  | 0x10 => some ⟨[.column, .block], fun (r, code, _) => .expression r code⟩
  | 0x11 => some ⟨[.column, .signed], fun (r, n, _) => .offset r (n * dialect.dataFactor)⟩
  | 0x12 => some ⟨[.column, .signed], fun (r, n, _) => .defCfa r (n * dialect.dataFactor)⟩
  | 0x13 => some ⟨[.signed], fun (n, _) => .defCfaOffset (n * dialect.dataFactor)⟩
  | 0x14 =>
    some ⟨[.column, .unsigned], fun (r, n, _) => .valOffset r (n.toInt64 * dialect.dataFactor)⟩
  | 0x15 => some ⟨[.column, .signed], fun (r, n, _) => .valOffset r (n * dialect.dataFactor)⟩
  | 0x16 => some ⟨[.column, .block], fun (r, code, _) => .valExpression r code⟩
  | 0x2d =>
    match dialect.vendor with
    | .negateSignState => some ⟨[], fun _ => .negateSignState⟩
    | .windowSave => some ⟨[], fun _ => .windowSave⟩
    | .unassigned => none
  | 0x2e => some ⟨[.unsigned], fun (n, _) => .argsSize n⟩
  | 0x2f =>
    some ⟨[.column, .unsigned], fun (r, n, _) => .offset r (-(n.toInt64 * dialect.dataFactor))⟩
  | _ => none

/-- All opcodes. Three of them keep an operand in their low six bits. -/
def form (dialect : Dialect) (opcode : UInt8) : Option InstructionForm :=
  let low := opcode.toNat % 64
  match opcode.toNat / 64 with
  | 1 => some ⟨[], fun _ => .advance (UInt64.ofNat low * dialect.codeFactor)⟩
  | 2 => some ⟨[.unsigned], fun (n, _) => .offset low (n.toInt64 * dialect.dataFactor)⟩
  | 3 => some ⟨[], fun _ => .restore low⟩
  | _ => dialect.wholeForm opcode

end Dialect

namespace InstructionForm

/-- What an opcode of the form is followed by. Nothing spells an instruction without one. -/
def spells (forms : LebForms) (dialect : Dialect) : Option InstructionForm → Grammar Instruction
  | none => fun _ _ _ _ => False
  | some form => (Operands.spells forms dialect form.kinds).map form.meaning

/-- Reads the operands and says what they mean. Without a form, the opcode is unknown. -/
def read (dialect : Dialect) (opcode : UInt8) :
    Option InstructionForm → Reading CfiError Instruction
  | none => throw (.unknownOpcode opcode)
  | some form => return form.meaning (← Operands.read dialect form.kinds)

end InstructionForm

namespace Instruction

/-- An opcode, and the operands of its form. -/
def spells (forms : LebForms) (dialect : Dialect) : Grammar Instruction :=
  Grammar.andThen (fun _ _ opcode bytes => bytes = [opcode]) fun opcode =>
    InstructionForm.spells forms dialect (dialect.form opcode)

theorem operands_eq (dialect : Dialect) (opcode : UInt8) :
    operands dialect opcode = InstructionForm.read dialect opcode (dialect.wholeForm opcode) := by
  unfold operands Dialect.wholeForm
  split
  case h_24 => cases dialect.vendor <;> simp [InstructionForm.read, Operands.read]
  all_goals
    simp [InstructionForm.read, Operands.read, OperandKind.read, factored, factoredSigned]

theorem decode_eq (dialect : Dialect) :
    decode dialect = (do
      let opcode ← Reading.u8
      InstructionForm.read dialect opcode (dialect.form opcode)) := by
  unfold decode Dialect.form
  refine congrArg _ (funext fun opcode => ?_)
  dsimp only
  generalize opcode.toNat / 64 = high
  split
  · simp [InstructionForm.read, Operands.read]
  · simp [InstructionForm.read, Operands.read, OperandKind.read, factored]
  · simp [InstructionForm.read, Operands.read]
  · simp [operands_eq]

end Instruction

namespace OperandKind

theorem spells_mono {forms forms' : LebForms} (h : forms.Within forms') {dialect : Dialect}
    {kind : OperandKind} {space : AddressSpace} {address : Word} {value : kind.Value}
    {bytes : List UInt8} (hspells : kind.spells forms dialect space address value bytes) :
    kind.spells forms' dialect space address value bytes := by
  cases kind with
  | column => exact ⟨hspells.1, h.unsigned _ _ hspells.2⟩
  | unsigned => exact h.unsigned _ _ hspells
  | signed => exact h.signed _ _ hspells
  | pointer => exact Encoding.spells_mono h hspells
  | block =>
    obtain ⟨front, content, hbytes, hlength, hcontent⟩ := hspells
    exact ⟨front, content, hbytes, h.unsigned _ _ hlength, hcontent⟩
  | _ => exact hspells

theorem ofWord_eq_ok {number : Word} {register : Register} :
    Register.ofWord number = .ok register ↔
      register < UInt16.size ∧ number = UInt64.ofNat register := by
  unfold Register.ofWord
  constructor
  · intro h
    split at h
    · cases h
      exact ⟨‹_›, UInt64.ofNat_toNat.symm⟩
    · cases h
  · rintro ⟨hlt, rfl⟩
    have hnumber : (UInt64.ofNat register).toNat = register :=
      UInt64.toNat_ofNat_of_lt' (Nat.lt_trans hlt (by decide))
    rw [hnumber, if_pos hlt]

theorem parses_column (dialect : Dialect) :
    Instruction.column.Parses (column.spells .accepted dialect) := by
  refine (Reading.parses_uleb128.liftM.bind fun number => .known (Register.ofWord number)).congr
    fun space address register bytes => ?_
  constructor
  · rintro ⟨number, front, behind, rfl, hfront, hnumber, rfl⟩
    obtain ⟨hlt, rfl⟩ := ofWord_eq_ok.mp hnumber
    rw [List.append_nil]
    exact ⟨hlt, hfront⟩
  · rintro ⟨hlt, hbytes⟩
    exact ⟨_, bytes, [], (List.append_nil bytes).symm, hbytes, ofWord_eq_ok.mpr ⟨hlt, rfl⟩, rfl⟩

theorem parses_block (dialect : Dialect) :
    Instruction.block.Parses (block.spells .accepted dialect) := by
  refine (Reading.parses_uleb128.liftM.bind fun length =>
    Reading.parses_skip length.toNat (Expression.mk · length)).congr
      fun space address expression bytes => ?_
  constructor
  · rintro ⟨length, front, content, hbytes, hlength, hcontent, rfl⟩
    exact ⟨front, content, hbytes, hlength, hcontent, rfl⟩
  · rintro ⟨front, content, hbytes, hlength, hcontent, hstart⟩
    exact ⟨expression.length, front, content, hbytes, hlength, hcontent, hstart ▸ rfl⟩

theorem parses_read (dialect : Dialect) (kind : OperandKind) :
    (kind.read dialect).Parses (kind.spells .accepted dialect) := by
  cases kind with
  | column => exact parses_column dialect
  | unsigned => exact Reading.parses_uleb128.liftM
  | signed => exact Reading.parses_sleb128.liftM
  | byte => exact Reading.parses_u8.liftM
  | half => exact Reading.parses_u16.liftM
  | word => exact Reading.parses_u32.liftM
  | pointer => exact (Encoding.parses_encodedPointer _ _).liftM
  | block => exact parses_block dialect

end OperandKind

namespace Operands

theorem spells_mono {forms forms' : LebForms} (h : forms.Within forms') {dialect : Dialect}
    {kinds : List OperandKind} {space : AddressSpace} {address : Word} {values : Operands kinds}
    {bytes : List UInt8} (hspells : spells forms dialect kinds space address values bytes) :
    spells forms' dialect kinds space address values bytes := by
  induction kinds generalizing address bytes with
  | nil => exact hspells
  | cons kind kinds ih =>
    obtain ⟨value, front, behind, rfl, hfirst, rest, hrest, rfl⟩ := hspells
    exact ⟨value, front, behind, rfl, OperandKind.spells_mono h hfirst, rest, ih hrest, rfl⟩

theorem parses_read (dialect : Dialect) (kinds : List OperandKind) :
    (read dialect kinds).Parses (spells .accepted dialect kinds) := by
  induction kinds with
  | nil => exact .pure ()
  | cons kind kinds ih => exact (kind.parses_read dialect).bind fun value => ih.map _

end Operands

theorem InstructionForm.spells_mono {forms forms' : LebForms} (h : forms.Within forms')
    {dialect : Dialect} {form : Option InstructionForm} {space : AddressSpace} {address : Word}
    {instruction : Instruction} {bytes : List UInt8}
    (hspells : spells forms dialect form space address instruction bytes) :
    spells forms' dialect form space address instruction bytes := by
  cases form with
  | none => exact hspells
  | some form =>
    obtain ⟨values, hvalues, hmeaning⟩ := hspells
    exact ⟨values, Operands.spells_mono h hvalues, hmeaning⟩

theorem InstructionForm.parses_read (dialect : Dialect) (opcode : UInt8)
    (form : Option InstructionForm) :
    (read dialect opcode form).Parses (spells .accepted dialect form) := by
  cases form with
  | none => exact .throw _
  | some form => exact (Operands.parses_read dialect form.kinds).map form.meaning

namespace Instruction

variable {forms forms' : LebForms} {dialect : Dialect} {space : AddressSpace} {span span' : Span}
  {address : Word} {instruction : Instruction} {instructions : List Instruction}
  {bytes : List UInt8}

theorem spells_mono (h : forms.Within forms')
    (hspells : spells forms dialect space address instruction bytes) :
    spells forms' dialect space address instruction bytes := by
  obtain ⟨opcode, front, behind, hbytes, hopcode, hform⟩ := hspells
  exact ⟨opcode, front, behind, hbytes, hopcode, InstructionForm.spells_mono h hform⟩

theorem spells_of_form {opcode : UInt8} {form : InstructionForm}
    (hform : dialect.form opcode = some form) (values : Operands form.kinds)
    (hmeaning : form.meaning values = instruction)
    (hoperands : Operands.spells forms dialect form.kinds space (address + 1) values bytes) :
    spells forms dialect space address instruction (opcode :: bytes) := by
  refine ⟨opcode, [opcode], bytes, rfl, rfl, ?_⟩
  dsimp only
  rw [hform]
  exact ⟨values, hoperands, hmeaning⟩

theorem spells_length_pos (hspells : spells forms dialect space address instruction bytes) :
    0 < bytes.length := by
  obtain ⟨opcode, front, behind, rfl, rfl, -⟩ := hspells
  exact Nat.zero_lt_succ _

theorem parses_decode (dialect : Dialect) :
    (decode dialect).Parses (spells .accepted dialect) := by
  rw [decode_eq]
  exact Reading.parses_u8.liftM.bind fun opcode => InstructionForm.parses_read dialect opcode _

theorem decode_advances (h : decode dialect space span = .ok instruction span') :
    span'.remaining < span.remaining := by
  rw [decode_eq] at h
  obtain ⟨opcode, middle, hopcode, hoperands⟩ := Reading.bind_eq_ok.mp h
  obtain ⟨hroom, -, rfl⟩ := Reading.u8_eq_ok.mp (Reading.liftM_eq_ok.mp hopcode)
  obtain ⟨count, hcount, rfl, -⟩ := (InstructionForm.parses_read dialect opcode _).sound hoperands
  have hone : (span.after 1).remaining = span.remaining - 1 :=
    Span.remaining_after (by unfold Span.remaining; omega)
  have hspan : 1 ≤ span.remaining := by
    unfold Span.remaining
    omega
  rw [Span.remaining_after hcount]
  change (span.after 1).remaining - count < span.remaining
  omega

/-! ## Streams -/

/-- The bytes from an address on are instructions, laid end to end. -/
inductive Stream (forms : LebForms) (dialect : Dialect) (space : AddressSpace) :
    Word → List Instruction → List UInt8 → Prop
  | nil {address : Word} : Stream forms dialect space address [] []
  | cons {address : Word} {instruction : Instruction} {instructions : List Instruction}
      {front behind : List UInt8} : spells forms dialect space address instruction front →
      Stream forms dialect space (address + UInt64.ofNat front.length) instructions behind →
      Stream forms dialect space address (instruction :: instructions) (front ++ behind)

theorem Stream.mono (h : forms.Within forms')
    (hstream : Stream forms dialect space address instructions bytes) :
    Stream forms' dialect space address instructions bytes := by
  induction hstream with
  | nil => exact .nil
  | cons hfirst _ ih => exact .cons (spells_mono h hfirst) ih

theorem itemsWithin_of_stream {left : Nat}
    (hstream : Stream .accepted dialect space address instructions bytes)
    (haddress : span.pos = address) (hbegins : span.Begins space bytes)
    (hfills : bytes.length = span.remaining) (enough : bytes.length ≤ left) :
    itemsWithin dialect space left span = instructions.map .ok := by
  induction hstream generalizing span left with
  | nil =>
    cases left with
    | zero => rfl
    | succ left => rw [itemsWithin, if_pos ((Span.isEmpty_iff span).mpr hfills.symm), List.map_nil]
  | @cons _ instruction instructions front behind hfirst hrest ih =>
    subst haddress
    have hpos := spells_length_pos hfirst
    rw [List.length_append] at hfills enough
    obtain ⟨left, rfl⟩ := Nat.exists_eq_add_one_of_ne_zero (show left ≠ 0 by omega)
    have hdecode := (parses_decode dialect).complete hbegins.left hfirst
    have hfront : front.length ≤ span.remaining := by omega
    have hleft := Span.remaining_after hfront
    have hmore : ¬ span.isEmpty = true := by
      rw [Span.isEmpty_iff]
      omega
    rw [itemsWithin, if_neg hmore, hdecode]
    exact congrArg _ (ih rfl hbegins.right (by omega) (by omega))

theorem exists_stream {bound : Nat} (h : ∀ instruction ∈ instructions, ∃ bytes : List UInt8,
      bytes.length ≤ bound ∧ ∀ space address, spells forms dialect space address instruction bytes) :
    ∃ bytes : List UInt8, bytes.length ≤ bound * instructions.length ∧
      ∀ space address, Stream forms dialect space address instructions bytes := by
  induction instructions with
  | nil => exact ⟨[], Nat.zero_le _, fun _ _ => .nil⟩
  | cons instruction instructions ih =>
    obtain ⟨front, hfront, hfirst⟩ := h instruction List.mem_cons_self
    obtain ⟨behind, hbehind, hrest⟩ :=
      ih fun later hlater => h later (List.mem_cons_of_mem _ hlater)
    refine ⟨front ++ behind, ?_, fun space address => .cons (hfirst space _) (hrest space _)⟩
    rw [List.length_append, List.length_cons, Nat.mul_succ]
    omega

theorem exists_items {bound : Nat} (h : ∀ instruction ∈ instructions, ∃ bytes : List UInt8,
      bytes.length ≤ bound ∧
        ∀ space address, spells .accepted dialect space address instruction bytes)
    (hfits : bound * instructions.length < UInt64.size) :
    ∃ (memory : Snapshot) (span : Span),
      items dialect memory.space span = instructions.map .ok := by
  obtain ⟨bytes, hlength, hstream⟩ := exists_stream h
  have hend : (UInt64.ofNat bytes.length).toNat = bytes.length :=
    UInt64.toNat_ofNat_of_lt' (Nat.lt_of_le_of_lt hlength hfits)
  have hstores := Snapshot.stores_region .little ⟨0, bytes⟩ [] (by
    rw [UInt64.toNat_zero, Nat.zero_add]
    exact Nat.lt_of_le_of_lt hlength hfits)
  have hremaining : bytes.length = Span.remaining ⟨0, UInt64.ofNat bytes.length⟩ := by
    unfold Span.remaining
    rw [hend]
    rfl
  refine ⟨_, ⟨0, UInt64.ofNat bytes.length⟩,
    itemsWithin_of_stream (hstream _ 0) rfl ⟨hstores, ?_⟩ hremaining (Nat.le_of_eq hremaining)⟩
  rw [hend]
  exact Nat.le_of_eq (Nat.zero_add _)

/-- What is decoded are the instructions of a stream, and the failure to decode what
comes behind them, if they do not fill the span. -/
theorem itemsWithin_yield (dialect : Dialect) (space : AddressSpace) (span : Span) {left : Nat}
    (enough : span.remaining ≤ left) :
    ∃ instructions count, count ≤ span.remaining ∧
      (∀ bytes, bytes.length = count → space.Agrees span.pos bytes →
        Stream .accepted dialect space span.pos instructions bytes) ∧
      (count = span.remaining ∧ itemsWithin dialect space left span = instructions.map .ok ∨
        ∃ error rest, decode dialect space (span.after count) = .error error rest ∧
          itemsWithin dialect space left span = instructions.map .ok ++ [.error error]) := by
  have hnone : ∀ (span : Span) (bytes : List UInt8), bytes.length = 0 →
      space.Agrees span.pos bytes → Stream .accepted dialect space span.pos [] bytes := by
    intro span bytes hlength _
    rw [List.eq_nil_of_length_eq_zero hlength]
    exact .nil
  induction left generalizing span with
  | zero => exact ⟨[], 0, Nat.zero_le _, hnone span, .inl ⟨(Nat.le_zero.mp enough).symm, rfl⟩⟩
  | succ left ih =>
    rw [itemsWithin]
    by_cases hempty : span.isEmpty = true
    · rw [if_pos hempty]
      exact ⟨[], 0, Nat.zero_le _, hnone span, .inl ⟨((Span.isEmpty_iff span).mp hempty).symm, rfl⟩⟩
    · rw [if_neg hempty]
      cases hdecode : decode dialect space span with
      | error error rest =>
        refine ⟨[], 0, Nat.zero_le _, hnone span, .inr ⟨error, rest, ?_, rfl⟩⟩
        rw [Span.after_zero, hdecode]
      | ok instruction rest =>
        have hadvances := decode_advances hdecode
        obtain ⟨front, hfront, rfl, hfirst⟩ := (parses_decode dialect).sound hdecode
        have hleft := Span.remaining_after hfront
        obtain ⟨instructions, behind, hbehind, hrest, hends⟩ :=
          ih (span.after front) (by omega)
        refine ⟨instruction :: instructions, front + behind, by omega, ?_, ?_⟩
        · intro bytes hlength hagrees
          obtain ⟨first, second, rfl, rfl, hsecond, hagreesFirst, hagreesSecond⟩ :=
            hagrees.cut hlength
          exact .cons (hfirst first rfl hagreesFirst) (hrest second hsecond hagreesSecond)
        · rw [← Span.after_after]
          rcases hends with ⟨hcount, hitems⟩ | ⟨error, rest, herror, hitems⟩
          · exact .inl ⟨by omega, congrArg _ hitems⟩
          · exact .inr ⟨error, rest, herror, congrArg _ hitems⟩

/-- The iteration yields the instructions of every stream that fills the span, and
nothing else. When it yields all without a failure, the span is such a stream; and a
failure is the last thing it yields. -/
theorem items_language (dialect : Dialect) (space : AddressSpace) (span : Span) :
    (∀ instructions bytes, Stream .canonical dialect space span.pos instructions bytes →
      span.Begins space bytes → bytes.length = span.remaining →
        items dialect space span = instructions.map .ok) ∧
    (∀ instructions bytes, items dialect space span = instructions.map .ok →
      bytes.length = span.remaining → space.Agrees span.pos bytes →
        Stream .accepted dialect space span.pos instructions bytes) ∧
    ∃ instructions : List Instruction, items dialect space span = instructions.map .ok ∨
      ∃ error, items dialect space span = instructions.map .ok ++ [.error error] := by
  obtain ⟨yielded, count, -, hstream, hends⟩ := itemsWithin_yield dialect space span (Nat.le_refl _)
  refine ⟨?_, ?_, yielded, ?_⟩
  · intro instructions bytes hcanonical hbegins hfills
    exact itemsWithin_of_stream (hcanonical.mono LebForms.canonical_within) rfl hbegins hfills
      (Nat.le_of_eq hfills)
  · intro instructions bytes hitems hfills hagrees
    rcases hends with ⟨hcount, hyielded⟩ | ⟨error, rest, -, hyielded⟩
    · have hsame : instructions = yielded :=
        (List.map_inj_right fun _ _ => Except.ok.inj).mp (hitems.symm.trans hyielded)
      rw [hsame]
      exact hstream bytes (hfills.trans hcount.symm) hagrees
    · have hmem : .error error ∈ items dialect space span := by
        rw [items, hyielded]
        exact List.mem_append_right _ List.mem_cons_self
      rw [hitems] at hmem
      obtain ⟨_, -, hok⟩ := List.mem_map.mp hmem
      cases hok
  · rcases hends with ⟨-, hyielded⟩ | ⟨error, rest, -, hyielded⟩
    · exact .inl hyielded
    · exact .inr ⟨error, hyielded⟩

/-- An architecture that signs return addresses, and locations relative to their place. -/
def signedDialect : Dialect := ⟨4, -8, ⟨0x1b⟩, .unknown, .negateSignState⟩

/-- Six instructions: an advance, two saved registers, a location, a block and a sign. -/
def sixInstructions : List UInt8 :=
  [0x48, 0x86, 2, 0x11, 3, 0x7d, 0x01, 0x10, 0, 0, 0, 0x0f, 2, 0x77, 8, 0x2d]

def sixMemory : Snapshot := ⟨.little, [⟨0x1000, sixInstructions⟩]⟩

def sixDecoded : List Instruction :=
  [.advance 32, .offset 6 (-16), .offset 3 24, .setLocation 0x1017,
    .defCfaExpression ⟨0x100d, 2⟩, .negateSignState]

theorem sixInstructions_stream :
    Stream .canonical signedDialect sixMemory.space 0x1000 sixDecoded sixInstructions := by
  have htwo : LebForms.canonical.unsigned 2 [2] := (Reading.encodeUnsigned_of_lt (by decide)).symm
  have hthree : LebForms.canonical.unsigned 3 [3] :=
    (Reading.encodeUnsigned_of_lt (by decide)).symm
  have hminus : LebForms.canonical.signed (-3) [0x7d] := by
    have hshort : Reading.encodeSigned (-3) = [0x7d] := Reading.encodeSigned_of_lt (by decide)
    exact hshort.symm
  have htarget : signedDialect.pointerEncoding.spells .canonical .unknown sixMemory.space 0x1007
      0x1017 [0x10, 0, 0, 0] :=
    ⟨.sdata4, 0x10, rfl, ⟨by decide, rfl⟩, 0x1007, rfl, rfl⟩
  have hadvance : spells .canonical signedDialect sixMemory.space 0x1000 (.advance 32) [0x48] :=
    spells_of_form rfl () rfl ⟨rfl, rfl⟩
  have hoffset : spells .canonical signedDialect sixMemory.space 0x1001 (.offset 6 (-16))
      [0x86, 2] :=
    spells_of_form rfl (2, ()) rfl ⟨2, [2], [], rfl, htwo, (), ⟨rfl, rfl⟩, rfl⟩
  have hsigned : spells .canonical signedDialect sixMemory.space 0x1003 (.offset 3 24)
      [0x11, 3, 0x7d] :=
    spells_of_form rfl (3, -3, ()) rfl ⟨3, [3], [0x7d], rfl, ⟨by decide, hthree⟩, (-3, ()),
      ⟨-3, [0x7d], [], rfl, hminus, (), ⟨rfl, rfl⟩, rfl⟩, rfl⟩
  have hlocation : spells .canonical signedDialect sixMemory.space 0x1006 (.setLocation 0x1017)
      [0x01, 0x10, 0, 0, 0] :=
    spells_of_form rfl (0x1017, ()) rfl
      ⟨0x1017, [0x10, 0, 0, 0], [], rfl, htarget, (), ⟨rfl, rfl⟩, rfl⟩
  have hblock : spells .canonical signedDialect sixMemory.space 0x100b
      (.defCfaExpression ⟨0x100d, 2⟩) [0x0f, 2, 0x77, 8] :=
    spells_of_form rfl (⟨0x100d, 2⟩, ()) rfl ⟨⟨0x100d, 2⟩, [2, 0x77, 8], [], rfl,
      ⟨[2], [0x77, 8], rfl, htwo, rfl, rfl⟩, (), ⟨rfl, rfl⟩, rfl⟩
  have hsign : spells .canonical signedDialect sixMemory.space 0x100f .negateSignState [0x2d] :=
    spells_of_form rfl () rfl ⟨rfl, rfl⟩
  exact .cons hadvance (.cons hoffset (.cons hsigned (.cons hlocation (.cons hblock
    (.cons hsign .nil)))))

theorem items_language_sixInstructions :
    Stream .canonical signedDialect sixMemory.space 0x1000 sixDecoded sixInstructions ∧
      Span.Begins ⟨0x1000, 0x1010⟩ sixMemory.space sixInstructions ∧
      items signedDialect sixMemory.space ⟨0x1000, 0x1010⟩ = sixDecoded.map .ok ∧
      Stream .accepted signedDialect sixMemory.space 0x1000 sixDecoded sixInstructions := by
  have hstores : sixMemory.space.Stores 0x1000 sixInstructions :=
    Snapshot.stores_region .little ⟨0x1000, _⟩ [] (by decide)
  have hbegins : Span.Begins ⟨0x1000, 0x1010⟩ sixMemory.space sixInstructions :=
    ⟨hstores, by decide⟩
  obtain ⟨hyields, hspelled, -⟩ :=
    items_language signedDialect sixMemory.space ⟨0x1000, 0x1010⟩
  have hitems := hyields _ _ sixInstructions_stream hbegins rfl
  exact ⟨sixInstructions_stream, hbegins, hitems, hspelled _ _ hitems rfl hstores.agrees⟩

end Instruction

end Unwinding
