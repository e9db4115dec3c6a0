import Unwinding.Proofs.CallFrame.Decoding
import Unwinding.Proofs.CallFrame.Layout
import Unwinding.Proofs.Reading.Spelling

/-!
# A common entry is decoded as it was laid out

The bytes of a layout are read back from the front to the back: the head of the
entry, the fields in front of the augmentation data, the data letter by letter,
and what is left of the entry for the instructions. Each part is shown to move
the decoder over just its own bytes, so that the next part is read from where it
was put.
-/

namespace Unwinding

namespace EntryHead

variable {space : AddressSpace} {span : Span} {address : Word} {long : Bool} {id length : Nat}

/-- The head of an entry that is laid out at `address`. -/
def laid (address : Word) (long : Bool) (id length : Nat) : EntryHead where
  address
  idField := address + UInt64.ofNat (lengthSize long)
  id := UInt32.ofNat id
  stop := address + UInt64.ofNat (lengthSize long + 4 + length)

theorem body_pos : (laid address long id length).body.pos =
    address + UInt64.ofNat (lengthSize long + 4) := by
  rw [UInt64.ofNat_add, ← UInt64.add_assoc]
  rfl

theorem body_pos_add {front behind : Nat} (h : length = front + behind) :
    (laid address long id length).body.pos + UInt64.ofNat front =
      address + UInt64.ofNat (lengthSize long + 4 + length - behind) := by
  rw [body_pos, UInt64.add_assoc, ← UInt64.ofNat_add]
  refine congrArg (address + UInt64.ofNat ·) ?_
  omega

theorem length_laid : (laid address long id length).length =
    UInt64.ofNat (lengthSize long + 4 + length) := by
  change address + UInt64.ofNat (lengthSize long + 4 + length) - address = _
  rw [UInt64.add_comm, UInt64.add_sub_cancel]

theorem sized_of_begins {middle : Span} (hmiddle : middle = span.after (lengthSize long))
    (h : middle.Begins space (space.endian.encode 4 id))
    (hfits : span.pos.toNat + (lengthSize long + 4 + length) < UInt64.size) :
    (sized span.pos (UInt64.ofNat (length + 4))).result space middle =
      .ok (laid span.pos long id length) := by
  subst hmiddle
  have hlength : (UInt64.ofNat (length + 4)).toNat = length + 4 :=
    UInt64.toNat_ofNat_of_lt' (by omega)
  have hpos : (span.after (lengthSize long)).pos.toNat = span.pos.toNat + lengthSize long :=
    Reading.toNat_add_ofNat (by omega)
  have hstop : (span.after (lengthSize long)).pos + UInt64.ofNat (length + 4) =
      span.pos + UInt64.ofNat (lengthSize long + 4 + length) := by
    change span.pos + UInt64.ofNat (lengthSize long) + _ = _
    rw [UInt64.add_assoc, ← UInt64.ofNat_add, Nat.add_assoc, Nat.add_comm 4]
  unfold sized
  rw [Reading.result_bind (Reading.pos_eq_ok.mpr ⟨rfl, rfl⟩)]
  dsimp only
  rw [if_neg (by omega), Reading.result_bind (Reading.liftM_eq_ok.mpr (Reading.u32_of_begins h)),
    Reading.result_pure, hstop]
  rfl

theorem reading_of_begins (htells : Tells long length)
    (hfits : span.pos.toNat + (lengthSize long + 4 + length) < UInt64.size)
    (h : span.Begins space (write space.endian long id length)) :
    reading.result space span = .ok (laid span.pos long id length) := by
  have hshort := Reading.u32_of_begins h.left
  have hrest := h.right
  rw [Endian.encode_length] at hrest
  obtain ⟨hpos, hlt⟩ := short_pos htells
  have htoNat : (UInt32.ofNat (short long length)).toNat = short long length :=
    UInt32.toNat_ofNat_of_lt' hlt
  have hzero : ¬ UInt32.ofNat (short long length) = 0 := by
    intro hzero
    rw [hzero] at htoNat
    exact absurd htoNat (Nat.ne_of_lt hpos)
  rw [reading_eq, Reading.result_bind (Reading.pos_eq_ok.mpr ⟨rfl, rfl⟩),
    Reading.result_bind (Reading.liftM_eq_ok.mpr hshort), if_neg hzero]
  cases long with
  | true =>
    have hlength := Reading.u64_of_begins hrest.left
    have hid := hrest.right
    rw [if_pos rfl, Endian.encode_length] at hid
    have hones : UInt32.ofNat (short true length) = 0xffffffff := rfl
    rw [if_pos hones, Reading.result_bind (Reading.liftM_eq_ok.mpr hlength)]
    exact sized_of_begins (Span.after_after span 4 8) hid hfits
  | false =>
    have htold := htells rfl
    change _ = length + 4 at htoNat
    have hother : ¬ UInt32.ofNat (short false length) = 0xffffffff := by
      intro hother
      rw [hother] at htoNat
      change 0xffffffff = length + 4 at htoNat
      omega
    have hsame : (UInt32.ofNat (short false length)).toUInt64 = UInt64.ofNat (length + 4) := by
      apply UInt64.toNat_inj.mp
      rw [UInt32.toNat_toUInt64, htoNat, UInt64.toNat_ofNat_of_lt' (by omega)]
    have hid : ((span.after 4).after 0).Begins space (space.endian.encode 4 id) := hrest.right
    rw [Span.after_zero] at hid
    rw [if_neg hother, hsame]
    exact sized_of_begins rfl hid hfits

theorem read_laid {content : List UInt8} (htells : Tells long content.length)
    (hfits : address.toNat + (lengthSize long + 4 + content.length) < UInt64.size)
    (h : space.Stores address (write space.endian long id content.length ++ content)) :
    read space address = .ok (laid address long id content.length) := by
  refine reading_of_begins htells hfits ⟨h.left, ?_⟩
  rw [write_length]
  change address.toNat + _ ≤ 2 ^ 64 - 1
  change _ < 2 ^ 64 at hfits
  omega

theorem begins_laid {content : List UInt8}
    (hfits : address.toNat + (lengthSize long + 4 + content.length) < UInt64.size)
    (h : space.Stores address (write space.endian long id content.length ++ content)) :
    (laid address long id content.length).body.Begins space content := by
  refine ⟨?_, ?_⟩
  · have hcontent := h.right
    rw [write_length] at hcontent
    rw [body_pos]
    exact hcontent
  · rw [body_pos, Reading.toNat_add_ofNat (by omega)]
    change _ ≤ (address + UInt64.ofNat _).toNat
    rw [Reading.toNat_add_ofNat hfits]
    omega

theorem number_short {content : List UInt8}
    (h : space.Stores address (write space.endian long id length ++ content)) :
    space.number address 4 = .ok (short long length % 256 ^ 4) := h.left.left.number

theorem number_id {content : List UInt8}
    (h : space.Stores address (write space.endian long id length ++ content)) :
    space.number (address + UInt64.ofNat (lengthSize long)) 4 = .ok (id % 256 ^ 4) := by
  have hid := h.left.right.right.number
  rw [UInt64.add_assoc, ← UInt64.ofNat_add, Endian.encode_length] at hid
  have hsize : 4 + (if long then space.endian.encode 8 (length + 4) else []).length =
      lengthSize long := by
    cases long with
    | true => exact congrArg (4 + ·) (Endian.encode_length _ _ _)
    | false => rfl
  rw [hsize] at hid
  exact hid

/-- The augmentation data is told to end where it does. -/
theorem augmentationEnd_of_begins {head : EntryHead} {data : List UInt8}
    (hlimit : span.limit = head.stop)
    (h : span.Begins space (Reading.encodeUnsigned data.length ++ data)) :
    head.augmentationEnd space span =
      .ok (span.pos + UInt64.ofNat (Reading.encodeUnsigned data.length ++ data).length)
        (span.after (Reading.encodeUnsigned data.length).length) := by
  have hroom := h.right.room
  rw [show (span.after _).limit = head.stop from hlimit] at hroom
  have hlt : data.length < UInt64.size := Nat.lt_of_le_of_lt (by omega) head.stop.toNat_lt
  refine Reading.bind_eq_ok.mpr ⟨_, _, Reading.liftM_eq_ok.mpr
    (Reading.uleb128_of_begins hlt h.left), ?_⟩
  refine Reading.bind_eq_ok.mpr ⟨_, _, Reading.pos_eq_ok.mpr ⟨rfl, rfl⟩, ?_⟩
  rw [UInt64.toNat_ofNat_of_lt' hlt, if_pos hroom]
  refine Reading.pure_eq_ok.mpr ⟨?_, rfl⟩
  change span.pos + UInt64.ofNat _ + UInt64.ofNat _ = _
  rw [UInt64.add_assoc, ← UInt64.ofNat_add, List.length_append]

end EntryHead

namespace CommonLayout

variable {layout : CommonLayout} {space : AddressSpace} {span : Span} {bases : Bases}

theorem augmentationString_of_begins {codes : List UInt8} (hcodes : 0 ∉ codes) {left : Nat}
    (hleft : codes.length < left) (h : span.Begins space (codes ++ [0])) :
    CommonEntry.augmentationString left space span =
      .ok codes (span.after (codes.length + 1)) := by
  induction codes generalizing left span with
  | nil =>
    obtain ⟨left, rfl⟩ : ∃ rest, left = rest + 1 := ⟨left - 1, by omega⟩
    exact Reading.bind_eq_ok.mpr ⟨_, _, Reading.liftM_eq_ok.mpr (Reading.u8_of_begins h), rfl⟩
  | cons code codes ih =>
    obtain ⟨left, rfl⟩ : ∃ rest, left = rest + 1 := ⟨left - 1, by omega⟩
    have hcode : ¬ code = 0 := fun hcode => hcodes (hcode ▸ List.mem_cons_self)
    have hcodes : 0 ∉ codes := fun hmem => hcodes (List.mem_cons_of_mem code hmem)
    have hbegins : span.Begins space ([code] ++ (codes ++ [0])) := h
    have hrest : (span.after 1).Begins space (codes ++ [0]) := hbegins.right
    refine Reading.bind_eq_ok.mpr
      ⟨_, _, Reading.liftM_eq_ok.mpr (Reading.u8_of_begins hbegins.left), ?_⟩
    rw [if_neg hcode]
    refine Reading.bind_eq_ok.mpr ⟨_, _, ih hcodes (Nat.lt_of_succ_lt_succ hleft) hrest, ?_⟩
    rw [Span.after_after, Nat.add_comm 1]
    rfl

/-- What the letters have told of an entry. -/
def told (layout : CommonLayout) (letters : List Letter) (entry : CommonEntry) : CommonEntry :=
  { entry with
    pointerEncoding :=
      if .pointers ∈ letters then layout.pointerEncoding else entry.pointerEncoding
    lsdaEncoding := if .lsdas ∈ letters then layout.lsdaEncoding else entry.lsdaEncoding
    personality := if .personality ∈ letters then some layout.personality else entry.personality
    isSignalFrame := entry.isSignalFrame || decide (.signal ∈ letters)
    signedWithBKey := entry.signedWithBKey || decide (.bKey ∈ letters)
    taggedMemory := entry.taggedMemory || decide (.tagged ∈ letters) }

/-- What one letter tells of an entry. -/
def tell (layout : CommonLayout) (letter : Letter) (entry : CommonEntry) : CommonEntry :=
  match letter with
  | .pointers => { entry with pointerEncoding := layout.pointerEncoding }
  | .personality => { entry with personality := some layout.personality }
  | .lsdas => { entry with lsdaEncoding := layout.lsdaEncoding }
  | .signal => { entry with isSignalFrame := true }
  | .bKey => { entry with signedWithBKey := true }
  | .tagged => { entry with taggedMemory := true }

theorem told_nil (entry : CommonEntry) : layout.told [] entry = entry := by
  simp [told]

theorem told_cons (letter : Letter) (letters : List Letter) (entry : CommonEntry) :
    layout.told (letter :: letters) entry = layout.told letters (layout.tell letter entry) := by
  cases letter <;> simp [told, tell]

section Augment

variable {head : EntryHead} {found : CommonEntry.Augmented}

theorem augment_letter {letter : Letter} {codes : List UInt8} {result : CommonEntry.Augmented}
    {span' : Span} (hleads : layout.LeadsToPersonality space bases [letter] span.pos)
    (h : span.Begins space (layout.field space.endian letter))
    (hrest : CommonEntry.augment head bases codes
      { found with entry := layout.tell letter found.entry } space
        (span.after (layout.field space.endian letter).length) = .ok result span') :
    CommonEntry.augment head bases (letter.byte :: codes) found space span =
      .ok result span' := by
  cases letter with
  | pointers | lsdas =>
    exact Reading.bind_eq_ok.mpr ⟨_, _, Reading.liftM_eq_ok.mpr (Reading.u8_of_begins h), hrest⟩
  | personality =>
    obtain ⟨hpersonality, hholds, hresolves⟩ := hleads [] [] rfl
    have hbegins : span.Begins space ([layout.personalityEncoding.byte] ++
      layout.personalityEncoding.write space.endian layout.storedPersonality) := h
    have hpointer := Reading.encodedPointer_of_begins hholds hresolves hbegins.right
    refine Reading.bind_eq_ok.mpr
      ⟨_, _, Reading.liftM_eq_ok.mpr (Reading.u8_of_begins hbegins.left), ?_⟩
    refine Reading.bind_eq_ok.mpr ⟨_, _, Reading.liftM_eq_ok.mpr hpointer, ?_⟩
    rw [if_neg hpersonality, Span.after_after, Nat.add_comm]
    exact hrest
  | signal | bKey | tagged =>
    rw [show (layout.field space.endian _).length = 0 from rfl, Span.after_zero] at hrest
    exact hrest

theorem LeadsToPersonality.next {letter : Letter} {letters : List Letter} {start : Word}
    (h : layout.LeadsToPersonality space bases (letter :: letters) start) :
    layout.LeadsToPersonality space bases letters
      (start + UInt64.ofNat (layout.field space.endian letter).length) := by
  intro before behind hletters
  obtain ⟨hpersonality, hholds, hresolves⟩ :=
    h (letter :: before) behind (congrArg (letter :: ·) hletters)
  refine ⟨hpersonality, hholds, ?_⟩
  have hdata : layout.data space.endian (letter :: before) =
      layout.field space.endian letter ++ layout.data space.endian before := rfl
  rw [hdata, List.length_append, Nat.add_assoc, UInt64.ofNat_add, ← UInt64.add_assoc] at hresolves
  exact hresolves

theorem LeadsToPersonality.first {letter : Letter} {letters : List Letter} {start : Word}
    (h : layout.LeadsToPersonality space bases (letter :: letters) start) :
    layout.LeadsToPersonality space bases [letter] start := by
  intro before behind hletters
  refine h before (behind ++ letters) ?_
  rw [← List.cons_append, ← List.append_assoc, ← hletters]
  rfl

theorem augment_of_begins {letters : List Letter}
    (hleads : layout.LeadsToPersonality space bases letters span.pos)
    (h : span.Begins space (layout.data space.endian letters)) :
    CommonEntry.augment head bases (letters.map Letter.byte) found space span =
      .ok { found with entry := layout.told letters found.entry }
        (span.after (layout.data space.endian letters).length) := by
  induction letters generalizing span found with
  | nil =>
    rw [told_nil]
    exact Reading.pure_eq_ok.mpr ⟨rfl, (Span.after_zero span).symm⟩
  | cons letter letters ih =>
    have hdata : layout.data space.endian (letter :: letters) =
        layout.field space.endian letter ++ layout.data space.endian letters := rfl
    rw [hdata] at h ⊢
    refine augment_letter hleads.first h.left ((ih hleads.next h.right).trans ?_)
    rw [told_cons, Span.after_after, List.length_append]

theorem augment_codes {entry : CommonEntry} (hlimit : span.limit = head.stop)
    (hleads : layout.LeadsToPersonality space bases layout.letters
      (span.pos + UInt64.ofNat (layout.dataLength space.endian).length))
    (h : span.Begins space (layout.augmented space.endian)) :
    ∃ result span', CommonEntry.augment head bases layout.codes ⟨entry, none⟩ space span =
        .ok result span' ∧
      result.entry = layout.told layout.letters
        { entry with
          hasAugmentation := entry.hasAugmentation || layout.augmentation.isSome } ∧
      result.dataEnd.getD span'.pos =
        span.pos + UInt64.ofNat (layout.augmented space.endian).length := by
  unfold codes augmented dataLength letters at *
  cases hletters : layout.augmentation with
  | none =>
    refine ⟨⟨entry, none⟩, span, rfl, ?_, (UInt64.add_zero span.pos).symm⟩
    rw [Option.getD_none, told_nil, Option.isSome_none, Bool.or_false]
  | some letters =>
    rw [hletters, if_pos Option.isSome_some] at h
    rw [hletters] at hleads
    dsimp only [Option.getD_some] at hleads h ⊢
    have hend := EntryHead.augmentationEnd_of_begins hlimit h
    refine ⟨_, _, Reading.bind_eq_ok.mpr
      ⟨_, _, hend, augment_of_begins hleads h.right.left⟩, ?_, ?_⟩
    · rw [Option.isSome_some, Bool.or_true]
    · rw [if_pos Option.isSome_some]
      rfl

end Augment

section Fields

variable {head : EntryHead}

/-- The fields that do not depend on the augmentation string. -/
def plain (layout : CommonLayout) (head : EntryHead) : CommonEntry where
  address := head.address
  length := head.length
  version := layout.version
  codeFactor := layout.codeFactor
  dataFactor := layout.dataFactor
  returnAddress := layout.column
  instructions := ⟨0, 0⟩
  pointerEncoding := .absolute
  lsdaEncoding := .absent
  personality := none
  hasAugmentation := layout.augmentation.isSome
  isSignalFrame := false
  signedWithBKey := false
  taggedMemory := false

theorem augmented_of_begins (hcolumn : layout.column < UInt16.size)
    (hlimit : span.limit = head.stop)
    (hleads : layout.LeadsToPersonality space bases layout.letters
      (span.pos + UInt64.ofNat (layout.dataLength space.endian).length))
    (h : span.Begins space (layout.augmented space.endian)) :
    (CommonEntry.augmented head bases layout.codes layout.version layout.codeFactor
        layout.dataFactor (UInt64.ofNat layout.column)).result space span =
      .ok { layout.told layout.letters (layout.plain head) with
        instructions := ⟨span.pos + UInt64.ofNat (layout.augmented space.endian).length,
          head.stop⟩ } := by
  have htoNat : (UInt64.ofNat layout.column).toNat = layout.column :=
    UInt64.toNat_ofNat_of_lt' (Nat.lt_trans hcolumn (by decide))
  have hregister : Register.ofWord (UInt64.ofNat layout.column) = .ok layout.column := by
    unfold Register.ofWord
    rw [htoNat, if_pos hcolumn]
  obtain ⟨result, span', haugment, hentry, hend⟩ := augment_codes hlimit hleads h
  unfold CommonEntry.augmented
  rw [Reading.result_bind (Reading.fetch_eq_ok.mpr ⟨hregister, rfl⟩),
    Reading.result_bind haugment, Reading.result_bind (Reading.pos_eq_ok.mpr ⟨rfl, rfl⟩),
    Reading.result_pure, hentry, hend]
  rfl

theorem factored_of_begins (hcolumn : layout.column < if layout.version = 1 then 256 else 65536)
    (h : span.Begins space (Reading.encodeUnsigned layout.codeFactor.toNat ++
      (Reading.encodeSigned layout.dataFactor.toInt ++ layout.columnBytes))) :
    (CommonEntry.factored head bases layout.codes layout.version).result space span =
      (CommonEntry.augmented head bases layout.codes layout.version layout.codeFactor
        layout.dataFactor (UInt64.ofNat layout.column)).result space
          (span.after (Reading.encodeUnsigned layout.codeFactor.toNat ++
            (Reading.encodeSigned layout.dataFactor.toInt ++ layout.columnBytes)).length) := by
  have hcode := Reading.uleb128_of_begins layout.codeFactor.toNat_lt h.left
  have hdata := Reading.sleb128_of_begins h.right.left
  have hbytes := h.right.right
  rw [UInt64.ofNat_toNat] at hcode
  rw [List.length_append, List.length_append, ← Span.after_after, ← Span.after_after]
  unfold CommonEntry.factored
  rw [Reading.result_bind (Reading.liftM_eq_ok.mpr hcode),
    Reading.result_bind (Reading.liftM_eq_ok.mpr hdata)]
  unfold columnBytes at hbytes ⊢
  by_cases hversion : layout.version = 1
  · rw [if_pos hversion] at hcolumn hbytes
    have hsame : (UInt8.ofNat layout.column).toUInt64 = UInt64.ofNat layout.column := by
      apply UInt64.toNat_inj.mp
      rw [UInt8.toNat_toUInt64, UInt8.toNat_ofNat_of_lt' hcolumn,
        UInt64.toNat_ofNat_of_lt' (Nat.lt_trans hcolumn (by decide))]
    rw [if_pos hversion, if_pos hversion,
      Reading.result_bind (Reading.liftM_eq_ok.mpr (Reading.u8_of_begins hbytes)), hsame]
    rfl
  · rw [if_neg hversion] at hcolumn hbytes
    have hlt : layout.column < UInt64.size := Nat.lt_trans hcolumn (by decide)
    rw [if_neg hversion, if_neg hversion,
      Reading.result_bind (Reading.liftM_eq_ok.mpr (Reading.uleb128_of_begins hlt hbytes))]

theorem codes_noNul (layout : CommonLayout) : 0 ∉ layout.codes := by
  unfold codes
  cases layout.augmentation with
  | none => exact List.not_mem_nil
  | some letters =>
    intro hmem
    obtain hz | hletter := List.mem_cons.mp hmem
    · exact absurd hz (by decide)
    · obtain ⟨letter, -, hzero⟩ := List.mem_map.mp hletter
      cases letter <;> exact absurd hzero (by decide)

theorem codes_notLegacy (layout : CommonLayout) : ¬ CommonEntry.isLegacy layout.codes = true := by
  unfold codes
  cases layout.augmentation <;> exact Bool.false_ne_true

theorem fields_of_begins (hversion : layout.version = 1 ∨ layout.version = 3)
    (hcolumn : layout.column < if layout.version = 1 then 256 else 65536)
    (hlimit : span.limit = head.stop)
    (hleads : layout.LeadsToPersonality space bases layout.letters
      (span.pos + UInt64.ofNat (layout.front.length + (layout.dataLength space.endian).length)))
    (h : span.Begins space (layout.content space.endian)) :
    (CommonEntry.fields head bases).result space span =
      .ok { layout.told layout.letters (layout.plain head) with
        instructions := ⟨span.pos + UInt64.ofNat (layout.front.length +
          (layout.augmented space.endian).length), head.stop⟩ } := by
  have hfront := h.left
  have hstring : CommonEntry.augmentationString (span.after 1).remaining space (span.after 1) =
      .ok layout.codes ((span.after 1).after (layout.codes.length + 1)) := by
    have hcodes := hfront.right.left
    have hroom := hcodes.room
    rw [List.length_append] at hroom
    refine augmentationString_of_begins layout.codes_noNul ?_ hcodes
    unfold Span.remaining
    exact Nat.lt_sub_of_add_lt (by rw [Nat.add_comm]; exact hroom)
  have hfactored := hfront.right.right
  rw [List.length_append] at hfactored
  have hbehind : ((span.after 1).after (layout.codes.length + 1)).after
      (Reading.encodeUnsigned layout.codeFactor.toNat ++
        (Reading.encodeSigned layout.dataFactor.toInt ++ layout.columnBytes)).length =
          span.after layout.front.length := by
    rw [Span.after_after, Span.after_after]
    unfold front
    simp only [List.length_append, List.length_singleton, Nat.add_assoc]
  have hknown : ¬ (layout.version ≠ 1 ∧ layout.version ≠ 3) := fun hother =>
    hversion.elim hother.1 hother.2
  have hsmall : layout.column < UInt16.size := by
    split at hcolumn
    · exact Nat.lt_trans hcolumn (by decide)
    · exact hcolumn
  have hlimit' : (span.after layout.front.length).limit = head.stop := hlimit
  rw [UInt64.ofNat_add, ← UInt64.add_assoc] at hleads ⊢
  rw [CommonEntry.fields_eq,
    Reading.result_bind (Reading.liftM_eq_ok.mpr (Reading.u8_of_begins hfront.left)),
    if_neg hknown]
  refine (Reading.result_bind (Reading.get_eq_ok.mpr ⟨rfl, rfl⟩)).trans ?_
  rw [Reading.result_bind hstring, if_neg layout.codes_notLegacy]
  refine (factored_of_begins hcolumn hfactored).trans ?_
  exact (congrArg _ hbehind).trans (augmented_of_begins hsmall hlimit' hleads h.right.left)

end Fields

theorem decode_entry {address : Word} (hwell : layout.WellFormed space bases address)
    (hstored : space.Stores address (layout.bytes space.endian)) :
    CommonEntry.decode space bases address = .ok (layout.entry space.endian address) := by
  have hfits := hwell.fits
  rw [layout.bytes_length] at hfits
  have hleads := hwell.personality
  unfold dataOffset at hleads
  rw [Nat.add_assoc (EntryHead.lengthSize layout.long + 4), UInt64.ofNat_add,
    ← UInt64.add_assoc, ← EntryHead.body_pos] at hleads
  have hfields := fields_of_begins hwell.version hwell.column rfl hleads
    (EntryHead.begins_laid hfits hstored)
  refine CommonEntry.decode_eq_ok.mpr ⟨_, EntryHead.read_laid hwell.length hfits hstored, rfl,
    hfields.trans ?_⟩
  rw [EntryHead.body_pos_add (layout.content_length space.endian)]
  unfold told plain entry
  rw [EntryHead.length_laid, layout.bytes_length]
  rfl

end CommonLayout

end Unwinding
