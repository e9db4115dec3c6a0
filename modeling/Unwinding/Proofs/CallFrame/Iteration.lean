import Unwinding.CallFrame.Machine
import Unwinding.Proofs.CallFrame.Extent
import Unwinding.Proofs.CallFrame.Language

/-!
# Iterating over instructions

The instructions of an entry are not decoded at once but one by one, each when it is
asked for. The iterator knows what is left of its span, and whether decoding has failed.
Every item takes at least a byte or is the last, so that it cannot be asked for more
items than there are bytes, and a loop over it comes to its end whatever the bytes are.

What it reads are the bytes of its span. The only way out of it is a location that is
stored indirectly, which is loaded from where the stored value leads.
-/

namespace Unwinding

/-! ## What an instruction reads -/

section Operands

variable {dialect : Dialect}

theorem Instruction.confined_column : column.Confined :=
  .bind (Reading.confined_uleb128.mapError _) fun _ => .known _

theorem Instruction.confined_block : block.Confined := by
  refine .bind (Reading.confined_uleb128.mapError _) fun length => ?_
  refine .bind (.bind .get fun _ => .pure _) fun start => ?_
  exact .bind ((Reading.confined_skip _).mapError _) fun _ => .pure _

theorem OperandKind.confined_read {kind : OperandKind}
    (h : kind = .pointer → dialect.pointerEncoding.isIndirect = false) :
    (kind.read dialect).Confined := by
  cases kind with
  | column => exact Instruction.confined_column
  | unsigned => exact Reading.confined_uleb128.mapError _
  | signed => exact Reading.confined_sleb128.mapError _
  | byte => exact Reading.confined_u8.mapError _
  | half => exact Reading.confined_u16.mapError _
  | word => exact Reading.confined_u32.mapError _
  | pointer => exact (Reading.confined_encodedPointer _ (h rfl)).mapError _
  | block => exact Instruction.confined_block

theorem Operands.confined_read {kinds : List OperandKind}
    (h : .pointer ∈ kinds → dialect.pointerEncoding.isIndirect = false) :
    (Operands.read dialect kinds).Confined := by
  induction kinds with
  | nil => exact .pure _
  | cons kind kinds ih =>
    refine .bind (OperandKind.confined_read fun hkind => h ?_) fun _ => .bind (ih fun hmem => h ?_)
      fun _ => .pure _
    · rw [hkind]
      exact List.mem_cons_self
    · exact List.mem_cons_of_mem _ hmem

/-- One opcode is followed by a pointer. -/
theorem Dialect.opcode_of_pointer {opcode : UInt8} {form : InstructionForm}
    (h : dialect.form opcode = some form) (hpointer : .pointer ∈ form.kinds) : opcode = 0x01 := by
  unfold Dialect.form at h
  dsimp only at h
  split at h
  · cases h
    cases hpointer
  · cases h
    simp at hpointer
  · cases h
    cases hpointer
  · unfold wholeForm at h
    split at h
    case h_2 => rfl
    case h_24 => split at h <;> cases h <;> cases hpointer
    all_goals
      cases h
      try simp at hpointer

theorem InstructionForm.confined_read (opcode : UInt8) {form : Option InstructionForm}
    (h : ∀ some', form = some some' → .pointer ∈ some'.kinds →
      dialect.pointerEncoding.isIndirect = false) :
    (InstructionForm.read dialect opcode form).Confined := by
  cases form with
  | none => exact .throw _
  | some form => exact .bind (Operands.confined_read (h form rfl)) fun _ => .pure _

end Operands

namespace Instruction

variable {dialect : Dialect} {space other : AddressSpace} {span span' : Span}
  {instruction : Instruction}

/-- The instruction at the front of the span moves to a location that is stored
indirectly, and loaded from `address`. -/
def LoadsFrom (dialect : Dialect) (space : AddressSpace) (span : Span) (address : Word) : Prop :=
  dialect.pointerEncoding.isIndirect = true ∧
    ∃ middle rest, Reading.u8 space span = .ok 0x01 middle ∧
      Reading.unloaded dialect.pointerEncoding dialect.bases space middle = .ok address rest

theorem decode_of_alike (hspan : span.pos ≤ span.limit) (halike : space.Alike span.Covers other)
    (hload : ∀ address, LoadsFrom dialect space span address →
      other.pointer address = space.pointer address) :
    decode dialect other span = decode dialect space span := by
  have hopcode : (liftM Reading.u8 : Reading CfiError UInt8).Confined :=
    Reading.confined_u8.mapError _
  have hleaves := hopcode.leaves space span hspan
  rw [decode_eq]
  refine Reading.bind_same (hopcode.of_alike hspan halike) fun opcode middle hread => ?_
  rw [hread] at hleaves
  have hmiddle : middle.pos ≤ middle.limit := hleaves.limit ▸ hleaves.inside
  have halike' : space.Alike middle.Covers other := halike.mono fun _ _ => hleaves.covers
  by_cases hindirect : opcode = 0x01 ∧ dialect.pointerEncoding.isIndirect = true
  · -- the form of this opcode is one pointer, and nothing behind it
    obtain ⟨rfl, hindirect⟩ := hindirect
    have hpointer := Reading.encodedPointer_of_alike hmiddle halike' fun target rest htarget =>
      hload target ⟨hindirect, middle, rest, Reading.liftM_eq_ok.mp hread, htarget⟩
    refine Reading.bind_same (Reading.bind_same ?_ fun _ _ _ => rfl) fun _ _ _ => rfl
    exact Reading.mapError_same hpointer _
  · refine (InstructionForm.confined_read opcode fun form hform hpointer => ?_).of_alike hmiddle
      halike'
    have hone := Dialect.opcode_of_pointer hform hpointer
    exact Bool.eq_false_iff.mpr fun h => hindirect ⟨hone, h⟩

end Instruction

/-! ## The iterator -/

/-- The iterator over instructions: what is left of its span, and whether decoding has
failed. -/
structure InstructionStream where
  span : Span
  failed : Bool
  deriving Repr, DecidableEq

namespace InstructionStream

/-- The iterator before its first item. -/
def start (span : Span) : InstructionStream := ⟨span, false⟩

/-- The next item, if there is one. -/
def next (dialect : Dialect) (space : AddressSpace) (stream : InstructionStream) :
    Option (Except CfiError Instruction × InstructionStream) :=
  if stream.failed || stream.span.isEmpty then none
  else
    match Instruction.decode dialect space stream.span with
    | .ok instruction rest => some (.ok instruction, ⟨rest, false⟩)
    | .error error rest => some (.error error, ⟨rest, true⟩)

/-- The bytes that items can still come from. -/
def left (stream : InstructionStream) : Nat := if stream.failed then 0 else stream.span.remaining

/-- The items that are still to come. -/
def remainder (dialect : Dialect) (space : AddressSpace) (stream : InstructionStream) :
    List (Except CfiError Instruction) :=
  if stream.failed then [] else Instruction.items dialect space stream.span

/-- Asking for an item, as often as the list is long, gives the items of the list. -/
inductive Yields (dialect : Dialect) (space : AddressSpace) :
    InstructionStream → List (Except CfiError Instruction) → InstructionStream → Prop
  | nil {stream : InstructionStream} : Yields dialect space stream [] stream
  | cons {stream middle last : InstructionStream} {item : Except CfiError Instruction}
      {items : List (Except CfiError Instruction)} :
      stream.next dialect space = some (item, middle) → Yields dialect space middle items last →
      Yields dialect space stream (item :: items) last

variable {dialect : Dialect} {space other : AddressSpace} {span : Span}
  {stream later last : InstructionStream} {item : Except CfiError Instruction}
  {items : List (Except CfiError Instruction)} {instruction : Instruction} {error : CfiError}

/-- What one call of the iterator does, where there is a byte left. -/
inductive Nexts (dialect : Dialect) (space : AddressSpace) (stream : InstructionStream) :
    Except CfiError Instruction → InstructionStream → Prop
  | decoded {instruction : Instruction} {rest : Span} :
      Instruction.decode dialect space stream.span = .ok instruction rest →
      Nexts dialect space stream (.ok instruction) ⟨rest, false⟩
  | failed {error : CfiError} {rest : Span} :
      Instruction.decode dialect space stream.span = .error error rest →
      Nexts dialect space stream (.error error) ⟨rest, true⟩

theorem left_eq_zero : stream.left = 0 ↔ (stream.failed || stream.span.isEmpty) = true := by
  unfold left
  rw [Bool.or_eq_true, Span.isEmpty_iff]
  cases stream.failed with
  | true => exact ⟨fun _ => .inl rfl, fun _ => rfl⟩
  | false => simp

/-- There is no further item just where there is nothing for it to come from. -/
theorem next_eq_none : stream.next dialect space = none ↔ stream.left = 0 := by
  rw [left_eq_zero]
  unfold next
  constructor
  · intro h
    by_cases hdone : (stream.failed || stream.span.isEmpty) = true
    · exact hdone
    · rw [if_neg hdone] at h
      split at h <;> cases h
  · exact fun h => if_pos h

theorem nexts_of_next (h : stream.next dialect space = some (item, later)) :
    0 < stream.left ∧ Nexts dialect space stream item later := by
  have hleft : stream.left ≠ 0 := by
    intro hleft
    rw [next_eq_none.mpr hleft] at h
    cases h
  refine ⟨Nat.pos_of_ne_zero hleft, ?_⟩
  unfold next at h
  rw [if_neg fun hdone => hleft (left_eq_zero.mpr hdone)] at h
  split at h
  · rename_i hdecode
    cases h
    exact .decoded hdecode
  · rename_i hdecode
    cases h
    exact .failed hdecode

theorem left_pos (h : 0 < stream.left) :
    stream.failed = false ∧ stream.left = stream.span.remaining := by
  unfold left at h ⊢
  cases hfailed : stream.failed with
  | true =>
    rw [hfailed] at h
    exact absurd h (Nat.lt_irrefl 0)
  | false => exact ⟨rfl, rfl⟩

theorem left_of_next (h : stream.next dialect space = some (item, later)) :
    later.left < stream.left := by
  obtain ⟨hleft, hnexts⟩ := nexts_of_next h
  cases hnexts with
  | decoded hdecode =>
    rw [(left_pos hleft).2]
    exact Instruction.decode_advances hdecode
  | failed => exact hleft

theorem leaves_of_next (h : stream.next dialect space = some (.ok instruction, later)) :
    stream.span.Leaves later.span ∧ stream.span.pos < later.span.pos := by
  obtain ⟨hleft, hnexts⟩ := nexts_of_next h
  rw [(left_pos hleft).2] at hleft
  cases hnexts with
  | decoded hdecode =>
    have hadvances := Instruction.decode_advances hdecode
    obtain ⟨count, hcount, rfl, -⟩ := (Instruction.parses_decode dialect).sound hdecode
    obtain ⟨hpos, hroom⟩ := Span.pos_after hcount (Span.le_of_remaining hleft)
    rw [Span.remaining_after hcount] at hadvances
    have hforward : stream.span.pos < (stream.span.after count).pos := by
      rw [UInt64.lt_iff_toNat_lt, hpos]
      omega
    exact ⟨⟨UInt64.le_of_lt hforward, hroom, rfl⟩, hforward⟩

theorem next_of_error (h : stream.next dialect space = some (.error error, later)) :
    later.next dialect space = none := by
  obtain ⟨-, hnexts⟩ := nexts_of_next h
  cases hnexts with
  | failed => exact next_eq_none.mpr rfl

/-! ## All items -/

/-- A budget for all bytes gives all items. -/
theorem itemsWithin_enough {left : Nat} (h : span.remaining ≤ left) :
    Instruction.itemsWithin dialect space left span = Instruction.items dialect space span := by
  have hsame : ∀ (bytes left : Nat) (span : Span), span.remaining ≤ bytes → span.remaining ≤ left →
      Instruction.itemsWithin dialect space bytes span =
        Instruction.itemsWithin dialect space left span := by
    intro bytes
    induction bytes with
    | zero =>
      intro left span hbytes _
      have hempty : span.isEmpty = true := (Span.isEmpty_iff span).mpr (Nat.le_zero.mp hbytes)
      cases left with
      | zero => rfl
      | succ left => rw [Instruction.itemsWithin, Instruction.itemsWithin, if_pos hempty]
    | succ bytes ih =>
      intro left span hbytes hleft
      by_cases hempty : span.isEmpty = true
      · cases left <;> simp [Instruction.itemsWithin, hempty]
      · rw [Span.isEmpty_iff] at hempty
        obtain ⟨left, rfl⟩ := Nat.exists_eq_add_one_of_ne_zero (show left ≠ 0 by omega)
        rw [Instruction.itemsWithin, Instruction.itemsWithin]
        cases hdecode : Instruction.decode dialect space span with
        | error => rfl
        | ok instruction rest =>
          have hadvances := Instruction.decode_advances hdecode
          dsimp only
          rw [ih left rest (by omega) (by omega)]
  exact hsame left span.remaining span h (Nat.le_refl _)

theorem remainder_of_next (h : stream.next dialect space = some (item, later)) :
    stream.remainder dialect space = item :: later.remainder dialect space := by
  obtain ⟨hleft, hnexts⟩ := nexts_of_next h
  obtain ⟨hfailed, hremaining⟩ := left_pos hleft
  have hempty : ¬ stream.span.isEmpty = true := by
    rw [Span.isEmpty_iff]
    omega
  obtain ⟨bytes, hbytes⟩ := Nat.exists_eq_add_one_of_ne_zero (show stream.span.remaining ≠ 0 by omega)
  unfold remainder Instruction.items
  rw [hfailed, if_neg Bool.false_ne_true, hbytes, Instruction.itemsWithin, if_neg hempty]
  cases hnexts with
  | decoded hdecode =>
    have hadvances := Instruction.decode_advances hdecode
    rw [hdecode]
    exact congrArg _ (itemsWithin_enough (by omega))
  | failed hdecode => rw [hdecode]; rfl

theorem remainder_of_none (h : stream.next dialect space = none) :
    stream.remainder dialect space = [] := by
  have hleft := next_eq_none.mp h
  unfold left at hleft
  unfold remainder Instruction.items
  cases hfailed : stream.failed with
  | true => rfl
  | false =>
    rw [hfailed, if_neg Bool.false_ne_true] at hleft
    rw [if_neg Bool.false_ne_true, hleft]
    rfl

theorem Yields.remainder_eq (h : Yields dialect space stream items last) :
    stream.remainder dialect space = items ++ last.remainder dialect space := by
  induction h with
  | nil => rfl
  | cons hnext _ ih => rw [remainder_of_next hnext, ih, List.cons_append]

theorem Yields.length_le (h : Yields dialect space stream items last) :
    items.length + last.left ≤ stream.left := by
  induction h with
  | nil => exact Nat.le_of_eq (Nat.zero_add _)
  | cons hnext _ ih =>
    have hless := left_of_next hnext
    rw [List.length_cons]
    omega

theorem yields_remainder (stream : InstructionStream) :
    ∃ last, Yields dialect space stream (stream.remainder dialect space) last ∧
      last.next dialect space = none := by
  induction hleft : stream.left using Nat.strongRecOn generalizing stream with
  | ind bytes ih =>
    cases hnext : stream.next dialect space with
    | none => exact ⟨stream, remainder_of_none hnext ▸ .nil, hnext⟩
    | some result =>
      obtain ⟨item, later⟩ := result
      obtain ⟨last, hrest, hlast⟩ := ih later.left (hleft ▸ left_of_next hnext) later rfl
      exact ⟨last, remainder_of_next hnext ▸ .cons hnext hrest, hlast⟩

/-! ## What is read -/

theorem Yields.leaves (h : Yields dialect space stream items last) (hlast : 0 < last.left) :
    stream.span.Leaves last.span := by
  induction h with
  | nil =>
    rw [(left_pos hlast).2] at hlast
    exact .refl (Span.le_of_remaining hlast)
  | @cons _ middle _ item _ hnext hrest ih =>
    cases item with
    | ok instruction => exact (leaves_of_next hnext).1.trans (ih hlast)
    | error error =>
      have hnone := next_eq_none.mp (next_of_error hnext)
      have hlength := hrest.length_le
      omega

/-- The reads that the iteration over a span may make: of the bytes of the span, and of
the words that its indirect locations are loaded from. -/
inductive MayRead (dialect : Dialect) (space : AddressSpace) (span : Span) : Word → Nat → Prop
  | covered {address : Word} {count : Nat} :
      span.Covers address count → MayRead dialect space span address count
  | loaded {items : List (Except CfiError Instruction)} {stream : InstructionStream}
      {address : Word} :
      Yields dialect space (start span) items stream → 0 < stream.left →
      Instruction.LoadsFrom dialect space stream.span address →
      MayRead dialect space span address 8

theorem next_of_alike (h : Yields dialect space (start span) items stream)
    (halike : space.Alike (MayRead dialect space span) other) :
    stream.next dialect other = stream.next dialect space := by
  rcases Nat.eq_zero_or_pos stream.left with hnone | hleft
  · rw [next_eq_none.mpr hnone, next_eq_none.mpr hnone]
  · have hleaves : span.Leaves stream.span := h.leaves hleft
    have hspan : stream.span.pos ≤ stream.span.limit := hleaves.limit ▸ hleaves.inside
    have hcovered : space.Alike stream.span.Covers other :=
      halike.mono fun _ _ hcovers => .covered (hleaves.covers hcovers)
    have hdecode := Instruction.decode_of_alike hspan hcovered fun address hloads =>
      congrArg _ (Reading.number_congr address halike.endian
        (halike.read address 8 (.loaded h hleft hloads)))
    unfold next
    rw [hdecode]

end InstructionStream

/-- What iterating over a span comes to. -/
structure Exhausts (dialect : Dialect) (space : AddressSpace) (span : Span) : Prop where
  /-- Asking on and on gives the items, and then nothing. -/
  ends : ∃ last, InstructionStream.Yields dialect space (.start span)
      (Instruction.items dialect space span) last ∧ last.next dialect space = none
  /-- However often an item is asked for, those that come are the first of the items. -/
  first : ∀ items stream, InstructionStream.Yields dialect space (.start span) items stream →
    items <+: Instruction.items dialect space span
  bounded : (Instruction.items dialect space span).length ≤ span.remaining
  /-- An instruction takes a byte, and all that it takes is in the span. -/
  advances : ∀ stream instruction later, InstructionStream.next dialect space stream =
    some (.ok instruction, later) →
      stream.span.Leaves later.span ∧ stream.span.pos < later.span.pos
  silent : ∀ stream error later, InstructionStream.next dialect space stream =
    some (.error error, later) → later.next dialect space = none
  /-- The iteration is the same over all memories that are alike where it may read. -/
  reads : ∀ other, space.Alike (InstructionStream.MayRead dialect space span) other →
    ∀ items stream, InstructionStream.Yields dialect space (.start span) items stream →
      stream.next dialect other = stream.next dialect space

theorem exhausts (dialect : Dialect) (space : AddressSpace) (span : Span) :
    Exhausts dialect space span := by
  have hyields : ∃ last, InstructionStream.Yields dialect space (.start span)
      (Instruction.items dialect space span) last ∧ last.next dialect space = none :=
    InstructionStream.yields_remainder (.start span)
  obtain ⟨last, hall, hlast⟩ := hyields
  have hlength : (Instruction.items dialect space span).length + last.left ≤ span.remaining :=
    hall.length_le
  exact {
    ends := ⟨last, hall, hlast⟩
    first := fun items stream h => ⟨_, h.remainder_eq.symm⟩
    bounded := by omega
    advances := fun _ _ _ => InstructionStream.leaves_of_next
    silent := fun _ _ _ => InstructionStream.next_of_error
    reads := fun _ halike _ _ h => InstructionStream.next_of_alike h halike }

end Unwinding
