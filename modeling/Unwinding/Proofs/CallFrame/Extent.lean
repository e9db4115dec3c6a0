import Unwinding.Proofs.CallFrame.Operands

/-!
# Where the instructions of an entry are

The beginning and the end of the instructions come from different fields. The end is
counted from the length in front of the entry. The beginning is where the decoder stands
behind all fields, or where the augmentation data ends by its own declared length.
Whichever path the augmentation string takes through the fields, the decoder only moves
forward and the declared end of the data is not behind it, so that the instructions are
behind the head and fill the entry up to its end.
-/

namespace Unwinding

namespace EntryHead

/-- The size of the entry at `address` as its length field gives it, the field included.
The field takes four bytes, or twelve if the first four are all ones. -/
inductive Declares (space : AddressSpace) (address : Word) : Nat → Prop
  | short {length : UInt32} : space.get32 address = .ok length → length ≠ 0 →
      length ≠ 0xffffffff → Declares space address (4 + length.toNat)
  | long {length : Word} : space.get32 address = .ok 0xffffffff →
      space.get64 (address + 4) = .ok length → Declares space address (12 + length.toNat)

/-- What a head says of the entry at `address`: nothing of it wraps. -/
structure Placed (head : EntryHead) (space : AddressSpace) (address : Word) : Prop where
  address_eq : head.address = address
  declared : Declares space address head.length.toNat
  stop : head.stop.toNat = address.toNat + head.length.toNat
  body : address < head.body.pos

variable {space : AddressSpace} {span span' : Span} {head : EntryHead} {address length : Word}

theorem sized_placed (h : sized address length space span = .ok head span') :
    head.address = address ∧ head.stop.toNat = span.pos.toNat + length.toNat ∧
      head.body.pos.toNat = span.pos.toNat + 4 := by
  unfold sized at h
  obtain ⟨idField, _, hpos, h⟩ := Reading.bind_eq_ok.mp h
  obtain ⟨rfl, rfl⟩ := Reading.pos_eq_ok.mp hpos
  by_cases hwrap : UInt64.size ≤ span.pos.toNat + length.toNat
  · simp [hwrap] at h
  · simp only [hwrap, if_false] at h
    obtain ⟨id, middle, hid, h⟩ := Reading.bind_eq_ok.mp h
    obtain ⟨rfl, rfl⟩ := Reading.pure_eq_ok.mp h
    obtain ⟨hroom, -, -⟩ := (Reading.taken_eq_ok 4).mp (Reading.liftM_eq_ok.mp hid)
    refine ⟨rfl, ?_, Reading.pos_take hroom⟩
    change (span.pos + length).toNat = _
    rw [UInt64.toNat_add]
    exact Nat.mod_eq_of_lt (Nat.lt_of_not_le hwrap)

theorem placed_of_sized {middle : Span} {size : Nat} (hsize : 0 < size)
    (hmiddle : middle.pos.toNat = address.toNat + size)
    (hdeclared : Declares space address (size + length.toNat))
    (h : sized address length space middle = .ok head span') : head.Placed space address := by
  obtain ⟨haddress, hstop, hbody⟩ := sized_placed h
  have hlength : head.length.toNat = size + length.toNat := by
    unfold EntryHead.length
    rw [haddress, UInt64.toNat_sub_of_le _ _ (UInt64.le_iff_toNat_le.mpr (by omega))]
    omega
  refine ⟨haddress, hlength ▸ hdeclared, by omega, ?_⟩
  rw [UInt64.lt_iff_toNat_lt]
  omega

theorem placed_of_read (h : read space address = .ok head) : head.Placed space address := by
  obtain ⟨span', h⟩ := Reading.result_eq_ok.mp h
  rw [reading_eq] at h
  obtain ⟨_, _, hpos, h⟩ := Reading.bind_eq_ok.mp h
  obtain ⟨rfl, rfl⟩ := Reading.pos_eq_ok.mp hpos
  obtain ⟨short, span₁, hread, h⟩ := Reading.bind_eq_ok.mp h
  have hmoved := Reading.pos_of_u32 (Reading.liftM_eq_ok.mp hread)
  obtain ⟨-, hshort, rfl⟩ := (Reading.taken_eq_ok 4).mp (Reading.liftM_eq_ok.mp hread)
  by_cases hzero : short = 0
  · rw [if_pos hzero] at h
    exact (Reading.throw_eq_ok.mp h).elim
  rw [if_neg hzero] at h
  by_cases hlong : short = 0xffffffff
  · subst hlong
    rw [if_pos rfl] at h
    obtain ⟨length, span₂, hlength, h⟩ := Reading.bind_eq_ok.mp h
    have hmoved' := Reading.pos_of_u64 (Reading.liftM_eq_ok.mp hlength)
    obtain ⟨-, hget, -⟩ := (Reading.taken_eq_ok 8).mp (Reading.liftM_eq_ok.mp hlength)
    exact placed_of_sized (show 0 < 12 by decide) (by rw [hmoved', hmoved]; rfl)
      (.long hshort hget) h
  · rw [if_neg hlong] at h
    exact placed_of_sized (show 0 < 4 by decide) hmoved
      (UInt32.toNat_toUInt64 short ▸ .short hshort hzero hlong) h

end EntryHead

/-- The entry at `address` has the length that its head declares, and its instructions
are behind the head and end where the entry ends. -/
structure FillsEntry (space : AddressSpace) (address length : Word) (instructions : Span) :
    Prop where
  declared : EntryHead.Declares space address length.toNat
  behind : address < instructions.pos
  ordered : instructions.pos ≤ instructions.limit
  ends : instructions.limit.toNat = address.toNat + length.toNat

theorem EntryHead.Placed.fills {head : EntryHead} {space : AddressSpace} {address start : Word}
    (h : head.Placed space address) (hstart : head.body.pos ≤ start) (hstop : start ≤ head.stop) :
    FillsEntry space address head.length ⟨start, head.stop⟩ where
  declared := h.declared
  behind := UInt64.lt_of_lt_of_le h.body hstart
  ordered := hstop
  ends := h.stop

namespace CommonEntry

variable {head : EntryHead} {bases : Bases} {letter : UInt8} {letters : List UInt8}
  {found found' : Augmented} {space : AddressSpace} {span span' : Span} {start : Word}

/-- The walk over the letters stands in the entry, not in front of `start`, and neither
is the end of the data there, if it is known. The fields of the head are kept. -/
structure Ahead (head : EntryHead) (start : Word) (span : Span) (found : Augmented) : Prop where
  limit : span.limit = head.stop
  forward : start ≤ span.pos
  room : span.pos ≤ span.limit
  dataEnd : ∀ dataEnd, found.dataEnd = some dataEnd → start ≤ dataEnd ∧ dataEnd ≤ head.stop
  address : found.entry.address = head.address
  length : found.entry.length = head.length

theorem head_of_letter (h : augment head bases [letter] found space span = .ok found' span') :
    found'.entry.address = found.entry.address ∧ found'.entry.length = found.entry.length := by
  unfold augment at h
  split at h
  case h_10 =>
    split at h
    · obtain ⟨rfl, -⟩ := Reading.pure_eq_ok.mp h
      exact ⟨rfl, rfl⟩
    · exact (Reading.throw_eq_ok.mp h).elim
  all_goals
    simp only [augment, Reading.bind_eq_ok, Reading.pure_eq_ok] at h
    grind

theorem Ahead.move {count : Nat} (h : Ahead head start span found)
    (hcount : count ≤ span.remaining) (hdataEnd : found'.dataEnd = found.dataEnd)
    (haddress : found'.entry.address = found.entry.address)
    (hlength : found'.entry.length = found.entry.length) :
    Ahead head start (span.after count) found' := by
  obtain ⟨hpos, hroom⟩ := Span.pos_after hcount h.room
  have hforward : start ≤ (span.after count).pos := by
    have hstart := UInt64.le_iff_toNat_le.mp h.forward
    rw [UInt64.le_iff_toNat_le, hpos]
    omega
  exact ⟨h.limit, hforward, hroom, hdataEnd ▸ h.dataEnd, haddress.trans h.address,
    hlength.trans h.length⟩

theorem Ahead.step (h : Ahead head start span found)
    (hstep : augment head bases [letter] found space span = .ok found' span') :
    Ahead head start span' found' := by
  obtain ⟨haddress, hlength⟩ := head_of_letter hstep
  by_cases hz : letter = 0x7a
  · subst hz
    obtain ⟨count, dataEnd, hcount, rfl, rfl, hbegins, hends⟩ := length_step hstep
    have hmoved : Ahead head start (span.after count) found := h.move hcount rfl rfl rfl
    refine ⟨hmoved.limit, hmoved.forward, hmoved.room, ?_, h.address, h.length⟩
    rintro _ ⟨⟩
    exact ⟨UInt64.le_trans hmoved.forward hbegins, hends⟩
  · by_cases hletter : letter ∈ operandLetters
    · obtain ⟨count, -, hcount, rfl, hdataEnd, -⟩ := operand_step hletter hstep
      exact h.move hcount hdataEnd haddress hlength
    · obtain ⟨rfl, hdataEnd, -⟩ := other_step hz hletter hstep
      rw [← span'.after_zero]
      exact h.move (Nat.zero_le _) hdataEnd haddress hlength

theorem Ahead.run (h : Ahead head start span found)
    (hrun : augment head bases letters found space span = .ok found' span') :
    Ahead head start span' found' := by
  induction letters generalizing found span with
  | nil =>
    obtain ⟨rfl, rfl⟩ := Reading.pure_eq_ok.mp hrun
    exact h
  | cons letter letters ih =>
    rw [augment_cons] at hrun
    obtain ⟨middle, span₁, hfirst, hrest⟩ := Reading.bind_eq_ok.mp hrun
    have hmiddle := h.step hfirst
    split at hrest
    · exact ih hmiddle hrest
    · obtain ⟨rfl, rfl⟩ := Reading.pure_eq_ok.mp hrest
      exact hmiddle

theorem head_of_factors {version : UInt8} {letters' : List UInt8}
    (h : factors head letters version space span = .ok (letters', found) span') :
    found.entry.address = head.address ∧ found.entry.length = head.length := by
  obtain ⟨codeFactor, _, -, h⟩ := Reading.bind_eq_ok.mp h
  obtain ⟨dataFactor, _, -, h⟩ := Reading.bind_eq_ok.mp h
  split at h
  all_goals
    obtain ⟨column, _, -, h⟩ := Reading.bind_eq_ok.mp h
    obtain ⟨returnAddress, _, -, h⟩ := Reading.bind_eq_ok.mp h
    obtain ⟨hresult, -⟩ := Reading.pure_eq_ok.mp h
    cases hresult
    exact ⟨rfl, rfl⟩

theorem head_of_front (h : front head space span = .ok (letters, found) span') :
    found.entry.address = head.address ∧ found.entry.length = head.length := by
  obtain ⟨version, _, -, h⟩ := Reading.bind_eq_ok.mp h
  split at h
  · exact (Reading.throw_eq_ok.mp h).elim
  · obtain ⟨_, _, -, h⟩ := Reading.bind_eq_ok.mp h
    obtain ⟨letters, _, -, h⟩ := Reading.bind_eq_ok.mp h
    split at h
    · obtain ⟨table, _, -, h⟩ := Reading.bind_eq_ok.mp h
      exact head_of_factors h
    · exact head_of_factors h

/-- Behind the fields in front of the optional ones, the data is not known yet. -/
theorem ahead_of_front (hlimit : span.limit = head.stop)
    (h : front head space span = .ok (letters, found) span') :
    Ahead head span.pos span' found := by
  obtain ⟨version, middle, hversion, -⟩ := Reading.bind_eq_ok.mp h
  obtain ⟨hroom, -, -⟩ := Reading.u8_eq_ok.mp (Reading.liftM_eq_ok.mp hversion)
  have hspan : span.pos ≤ span.limit := by
    rw [UInt64.le_iff_toNat_le]
    omega
  have hleaves := (confined_front head).leaves space span hspan
  rw [h] at hleaves
  obtain ⟨haddress, hlength⟩ := head_of_front h
  refine ⟨hleaves.limit.trans hlimit, hleaves.forward, hleaves.limit ▸ hleaves.inside, ?_,
    haddress, hlength⟩
  intro dataEnd hdataEnd
  rw [(found_of_front h).1] at hdataEnd
  cases hdataEnd

theorem fills_of_decode {address : Word} {common : CommonEntry}
    (h : decode space bases address = .ok common) :
    common.address = address ∧
      FillsEntry space common.address common.length common.instructions := by
  obtain ⟨head, hhead, -, hfields⟩ := decode_eq_ok.mp h
  have hplaced := EntryHead.placed_of_read hhead
  obtain ⟨_, hfields⟩ := Reading.result_eq_ok.mp hfields
  rw [fields_eq_front] at hfields
  obtain ⟨⟨letters, found⟩, middle, hfront, hfields⟩ := Reading.bind_eq_ok.mp hfields
  obtain ⟨found', last, haugment, hfields⟩ := Reading.bind_eq_ok.mp hfields
  obtain ⟨_, _, hpos, hfields⟩ := Reading.bind_eq_ok.mp hfields
  obtain ⟨rfl, rfl⟩ := Reading.pos_eq_ok.mp hpos
  obtain ⟨rfl, rfl⟩ := Reading.pure_eq_ok.mp hfields
  have hahead := (ahead_of_front rfl hfront).run haugment
  have haddress := hahead.address.trans hplaced.address_eq
  refine ⟨haddress, ?_⟩
  change FillsEntry space found'.entry.address found'.entry.length _
  rw [haddress, hahead.length]
  cases hdataEnd : found'.dataEnd with
  | none => exact hplaced.fills hahead.forward (hahead.limit ▸ hahead.room)
  | some dataEnd =>
    obtain ⟨hstart, hstop⟩ := hahead.dataEnd dataEnd hdataEnd
    exact hplaced.fills hstart hstop

end CommonEntry

namespace FrameEntry

variable {head : EntryHead} {common : CommonEntry} {bases : Bases} {space : AddressSpace}
  {span span' : Span} {entry : FrameEntry}

theorem instructions_of_fields (hlimit : span.limit = head.stop)
    (h : fields head common bases space span = .ok entry span') :
    entry.address = head.address ∧ entry.length = head.length ∧
      ∃ start, entry.instructions = ⟨start, head.stop⟩ ∧ span.pos ≤ start ∧
        start ≤ head.stop := by
  have haddress := address_of_fields h
  refine ⟨haddress, ?_⟩
  unfold fields at h
  obtain ⟨pcStart, span₁, hstart, h⟩ := Reading.bind_eq_ok.mp h
  obtain ⟨range, span₂, hrange, h⟩ := Reading.bind_eq_ok.mp h
  obtain ⟨count₁, hpositive, hcount₁, rfl⟩ :=
    Reading.after_of_encodedPointer (Reading.liftM_eq_ok.mp hstart)
  obtain ⟨count₂, -, hcount₂, rfl⟩ :=
    Reading.after_of_encodedPointer (Reading.liftM_eq_ok.mp hrange)
  have hroom := Span.le_of_remaining (Nat.lt_of_lt_of_le hpositive hcount₁)
  obtain ⟨hpos₁, hroom₁⟩ := Span.pos_after hcount₁ hroom
  obtain ⟨hpos₂, hroom₂⟩ := Span.pos_after hcount₂ hroom₁
  dsimp only at h
  split at h
  · obtain ⟨dataEnd, span₃, hend, h⟩ := Reading.bind_eq_ok.mp h
    obtain ⟨lsda, span₄, -, h⟩ := Reading.bind_eq_ok.mp h
    obtain ⟨rfl, -⟩ := Reading.pure_eq_ok.mp h
    obtain ⟨count₃, hcount₃, rfl, hbegins, hends⟩ := CommonEntry.after_of_augmentationEnd hend
    obtain ⟨hpos₃, -⟩ := Span.pos_after hcount₃ hroom₂
    refine ⟨rfl, dataEnd, rfl, ?_, hends⟩
    rw [UInt64.le_iff_toNat_le] at hbegins ⊢
    omega
  · obtain ⟨_, _, hpos, h⟩ := Reading.bind_eq_ok.mp h
    obtain ⟨rfl, rfl⟩ := Reading.pos_eq_ok.mp hpos
    obtain ⟨rfl, -⟩ := Reading.pure_eq_ok.mp h
    refine ⟨rfl, _, rfl, ?_, hlimit ▸ hroom₂⟩
    rw [UInt64.le_iff_toNat_le]
    omega

theorem fills_of_decode {address : Word} (h : decode space bases address = .ok (entry, common)) :
    entry.address = address ∧
      FillsEntry space entry.address entry.length entry.instructions := by
  obtain ⟨head, hhead, -, -, hfields⟩ := decode_eq_ok.mp h
  have hplaced := EntryHead.placed_of_read hhead
  obtain ⟨_, hfields⟩ := Reading.result_eq_ok.mp hfields
  obtain ⟨haddress, hlength, start, hinstructions, hstart, hstop⟩ :=
    instructions_of_fields rfl hfields
  rw [haddress, hlength, hinstructions, hplaced.address_eq]
  exact ⟨rfl, hplaced.fills hstart hstop⟩

end FrameEntry

end Unwinding
