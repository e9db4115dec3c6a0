import Unwinding.Proofs.CallFrame.LaidOut

/-!
# Entries are decoded as they were laid out

A frame entry is read behind its common entry, which it tells the place of its
addresses and of its language data. What is found at the end of the distance that
the head of the frame entry gives is the common entry, and the fields that follow
are those of the layout.
-/

namespace Unwinding

namespace FrameLayout

variable {layout : FrameLayout} {common : CommonEntry} {space : AddressSpace} {span : Span}
  {bases : Bases}

theorem value_of_begins {encoding : Encoding} {value : Word} (hholds : encoding.Holds value)
    (h : span.Begins space (encoding.write space.endian value)) :
    Reading.encodedPointer encoding.valueOnly bases space span =
      .ok value (span.after (encoding.write space.endian value).length) := by
  rw [← Encoding.write_valueOnly] at h ⊢
  exact Reading.encodedPointer_of_begins hholds.valueOnly Encoding.resolves_valueOnly h

theorem lsdaField_of_begins (hstores : layout.StoresLsda common space bases span.pos)
    (haugmentation : common.hasAugmentation = true)
    (h : span.Begins space (layout.lsdaBytes space.endian common)) :
    FrameEntry.lsdaField common bases space span =
      .ok layout.lsda (span.after (layout.lsdaBytes space.endian common).length) := by
  unfold FrameEntry.lsdaField
  unfold lsdaBytes at h ⊢
  cases hstores with
  | absent hlsda hwhy =>
    have habsent := hwhy.resolve_left (by rw [haugmentation]; nofun)
    rw [hlsda, if_pos habsent, if_pos habsent]
    exact Reading.pure_eq_ok.mpr ⟨rfl, (Span.after_zero span).symm⟩
  | zero hlsda hpresent hstored hholds =>
    have hpresent : ¬ common.lsdaEncoding.isAbsent = true := by rw [hpresent]; nofun
    rw [if_neg hpresent, hstored] at h
    rw [hlsda, hstored, if_neg hpresent, if_neg hpresent]
    refine Reading.bind_eq_ok.mpr ⟨_, _, Reading.pos_eq_ok.mpr ⟨rfl, rfl⟩, ?_⟩
    exact Reading.bind_eq_ok.mpr ⟨_, _, Reading.liftM_eq_ok.mpr (value_of_begins hholds h), rfl⟩
  | some hlsda _ hpresent hstored hholds hresolves =>
    have hpresent : ¬ common.lsdaEncoding.isAbsent = true := by rw [hpresent]; nofun
    rw [if_neg hpresent] at h
    rw [hlsda, if_neg hpresent, if_neg hpresent]
    have hpointer := Reading.encodedPointer_of_begins hholds hresolves h
    refine Reading.bind_eq_ok.mpr ⟨_, _, Reading.pos_eq_ok.mpr ⟨rfl, rfl⟩, ?_⟩
    refine Reading.bind_eq_ok.mpr
      ⟨_, _, Reading.liftM_eq_ok.mpr (value_of_begins hholds h), ?_⟩
    rw [if_neg hstored]
    refine Reading.bind_eq_ok.mpr ⟨(), span, rfl, ?_⟩
    exact Reading.bind_eq_ok.mpr ⟨_, _, Reading.liftM_eq_ok.mpr hpointer, rfl⟩

theorem StoresLsda.lsda_eq_none {field : Word}
    (h : layout.StoresLsda common space bases field)
    (haugmentation : ¬ common.hasAugmentation = true) : layout.lsda = none := by
  cases h with
  | absent hlsda _ => exact hlsda
  | zero hlsda _ _ _ => exact hlsda
  | some _ hsome _ _ _ _ => exact absurd hsome haugmentation

theorem fields_of_begins {head : EntryHead} (hlimit : span.limit = head.stop)
    (hstart : common.pointerEncoding.Holds layout.storedStart)
    (hresolves : common.pointerEncoding.Resolves space bases span.pos layout.storedStart
      layout.pcStart)
    (hrange : common.pointerEncoding.Holds layout.range)
    (hstores : layout.StoresLsda common space bases
      (span.pos + UInt64.ofNat ((layout.front space.endian common).length +
        (layout.dataLength space.endian common).length)))
    (h : span.Begins space (layout.content space.endian common)) :
    (FrameEntry.fields head common bases).result space span =
      .ok {
        address := head.address
        length := head.length
        common := common.address
        pcStart := layout.pcStart
        pcEnd := layout.pcStart + layout.range
        lsda := layout.lsda
        instructions := ⟨span.pos + UInt64.ofNat ((layout.front space.endian common).length +
          (layout.augmented space.endian common).length), head.stop⟩ } := by
  have hfront := h.left
  have hbehind : (span.after (common.pointerEncoding.write space.endian
      layout.storedStart).length).after (common.pointerEncoding.write space.endian
        layout.range).length = span.after (layout.front space.endian common).length := by
    rw [Span.after_after, ← List.length_append]
    rfl
  have hfirst := Reading.encodedPointer_of_begins hstart hresolves hfront.left
  have hsecond : Reading.encodedPointer common.pointerEncoding.valueOnly bases space _ = _ :=
    value_of_begins hrange hfront.right
  rw [hbehind] at hsecond
  have haugmented := h.right.left
  have hlimit' : (span.after (layout.front space.endian common).length).limit = head.stop :=
    hlimit
  rw [UInt64.ofNat_add, ← UInt64.add_assoc] at hstores ⊢
  unfold FrameEntry.fields
  rw [Reading.result_bind (Reading.liftM_eq_ok.mpr hfirst),
    Reading.result_bind (Reading.liftM_eq_ok.mpr hsecond)]
  unfold augmented at haugmented ⊢
  dsimp only
  by_cases haugmentation : common.hasAugmentation = true
  · rw [if_pos haugmentation] at haugmented ⊢
    have hlsda := lsdaField_of_begins hstores haugmentation haugmented.right.left
    unfold dataLength at hlsda haugmented ⊢
    rw [Reading.result_bind (EntryHead.augmentationEnd_of_begins hlimit' haugmented),
      Reading.result_bind hlsda, Reading.result_pure, if_pos haugmentation]
    rfl
  · have hpos : (span.after (layout.front space.endian common).length).pos =
        span.pos + UInt64.ofNat (layout.front space.endian common).length +
          UInt64.ofNat ([] : List UInt8).length := (UInt64.add_zero _).symm
    rw [if_neg haugmentation, if_neg haugmentation,
      Reading.result_bind (Reading.pos_eq_ok.mpr ⟨rfl, rfl⟩), Reading.result_pure, hpos,
      hstores.lsda_eq_none haugmentation]

/-- An entry is not taken for a common one. If its distance were zero, its common
entry would begin with a zero, but that is where the length stands. -/
theorem distance_ne_zero {layout' : CommonLayout} {address place : Word}
    (hcommon : common.address = address) (hwell : layout'.WellFormed space bases address)
    (hstored : space.Stores address (layout'.bytes space.endian))
    (hstored' : space.Stores place (layout.bytes space.endian common place)) :
    layout.distance common place ≠ 0 := by
  intro hzero
  have hplace : place + UInt64.ofNat (EntryHead.lengthSize layout.long) = address := by
    unfold distance at hzero
    rw [hcommon] at hzero
    rw [UInt64.sub_eq_iff_eq_add.mp hzero, UInt64.zero_add]
  have hid := EntryHead.number_id hstored'
  rw [hzero, hplace] at hid
  obtain ⟨hpos, hlt⟩ := EntryHead.short_pos hwell.length
  have hshort := EntryHead.number_short hstored
  rw [Nat.mod_eq_of_lt hlt, hid] at hshort
  exact absurd (Except.ok.inj hshort) (Nat.ne_of_lt hpos)

theorem decode_entry {place : Word}
    (hcommon : CommonEntry.decode space bases common.address = .ok common)
    (hdistance : layout.distance common place ≠ 0)
    (hwell : layout.WellFormed common space bases place)
    (hstored : space.Stores place (layout.bytes space.endian common place)) :
    FrameEntry.decode space bases place =
      .ok (layout.entry space.endian common place, common) := by
  have hfits := hwell.fits
  rw [layout.bytes_length] at hfits
  have hdistance' : (UInt32.ofNat (layout.distance common place).toNat).toUInt64 =
      layout.distance common place := by
    apply UInt64.toNat_inj.mp
    rw [UInt32.toNat_toUInt64, UInt32.toNat_ofNat_of_lt' hwell.distance]
  have hid : UInt32.ofNat (layout.distance common place).toNat ≠ 0 := by
    intro hzero
    rw [hzero] at hdistance'
    exact hdistance hdistance'.symm
  have hback : place + UInt64.ofNat (EntryHead.lengthSize layout.long) -
      layout.distance common place = common.address := by
    unfold distance
    rw [UInt64.sub_eq_iff_eq_add, UInt64.add_comm common.address, UInt64.sub_add_cancel]
  have hresolves := hwell.start.2
  rw [← EntryHead.body_pos] at hresolves
  have hstores := hwell.lsda
  rw [Nat.add_assoc (EntryHead.lengthSize layout.long + 4), UInt64.ofNat_add,
    ← UInt64.add_assoc, ← EntryHead.body_pos] at hstores
  have hfields := fields_of_begins rfl hwell.start.1 hresolves hwell.range hstores
    (EntryHead.begins_laid hfits hstored)
  refine FrameEntry.decode_eq_ok.mpr ⟨_, EntryHead.read_laid hwell.length hfits hstored, hid, ?_,
    hfields.trans ?_⟩
  · unfold EntryHead.laid
    rw [hdistance', hback]
    exact hcommon
  · rw [EntryHead.body_pos_add (layout.content_length space.endian common),
      EntryHead.length_laid]
    unfold entry
    rw [layout.bytes_length]
    rfl

end FrameLayout

namespace CommonLayout

/-- Whatever is laid out is decoded to what it was laid out for: a common entry,
and each frame entry whose distance leads back to it. -/
theorem decode_laid_out (layout : CommonLayout) (space : AddressSpace) (bases : Bases)
    (address : Word) (hwell : layout.WellFormed space bases address)
    (hstored : space.Stores address (layout.bytes space.endian)) :
    CommonEntry.decode space bases address = .ok (layout.entry space.endian address) ∧
      ∀ (frame : FrameLayout) (place : Word),
        frame.WellFormed (layout.entry space.endian address) space bases place →
        space.Stores place (frame.bytes space.endian (layout.entry space.endian address) place) →
        FrameEntry.decode space bases place =
          .ok (frame.entry space.endian (layout.entry space.endian address) place,
            layout.entry space.endian address) := by
  have hcommon := decode_entry hwell hstored
  refine ⟨hcommon, fun frame place hwell' hstored' => ?_⟩
  have hdistance := FrameLayout.distance_ne_zero rfl hwell hstored hstored'
  exact FrameLayout.decode_entry hcommon hdistance hwell' hstored'

/-- Three fields in the augmentation data, and a byte that is not looked at. -/
def threeFields : CommonLayout where
  long := false
  version := 1
  augmentation := some [.pointers, .personality, .lsdas]
  codeFactor := 1
  dataFactor := -8
  column := 16
  pointerEncoding := ⟨0x1b⟩
  lsdaEncoding := .absolute
  personalityEncoding := .absolute
  storedPersonality := 0x77770000
  personality := 0x77770000
  padding := [0]
  instructions := [0x0c, 7, 8]

/-- A function with language data, in an entry with the long form of the length. -/
def longFrame : FrameLayout where
  long := true
  storedStart := 0x3fefcf
  pcStart := 0x400000
  range := 0x20
  storedLsda := 0x55550000
  lsda := some 0x55550000
  padding := []
  instructions := [0x41]

def threeFieldsMemory : Snapshot where
  endian := .little
  regions := [⟨0x1000, [
    0x1d, 0, 0, 0, 0, 0, 0, 0, 1, 0x7a, 0x52, 0x50, 0x4c, 0, 1, 0x78, 16, 12, 0x1b, 0, 0, 0, 0x77,
    0x77, 0, 0, 0, 0, 0, 0, 0x0c, 7, 8,
    0xff, 0xff, 0xff, 0xff, 0x16, 0, 0, 0, 0, 0, 0, 0, 0x2d, 0, 0, 0, 0xcf, 0xef, 0x3f, 0, 0x20, 0,
    0, 0, 8, 0, 0, 0x55, 0x55, 0, 0, 0, 0, 0x41]⟩]

theorem threeFields_content : threeFields.content .little =
    [1, 0x7a, 0x52, 0x50, 0x4c, 0, 1, 0x78, 16, 12, 0x1b, 0, 0, 0, 0x77, 0x77, 0, 0, 0, 0, 0, 0,
      0x0c, 7, 8] := by
  have hcode : Reading.encodeUnsigned threeFields.codeFactor.toNat = [1] :=
    Reading.encodeUnsigned_of_lt (by decide)
  have hdata : Reading.encodeSigned threeFields.dataFactor.toInt = [0x78] :=
    Reading.encodeSigned_of_lt (by decide)
  have hsize : threeFields.dataLength .little = [12] := Reading.encodeUnsigned_of_lt (by decide)
  change threeFields.front ++ (threeFields.dataLength .little ++ _ ++ _) = _
  unfold front
  rw [hcode, hdata, hsize]
  rfl

theorem longFrame_content : longFrame.content .little (threeFields.entry .little 0x1000) =
    [0xcf, 0xef, 0x3f, 0, 0x20, 0, 0, 0, 8, 0, 0, 0x55, 0x55, 0, 0, 0, 0, 0x41] := by
  have hsize : longFrame.dataLength .little (threeFields.entry .little 0x1000) = [8] :=
    Reading.encodeUnsigned_of_lt (by decide)
  change _ ++ (longFrame.dataLength .little (threeFields.entry .little 0x1000) ++ _ ++ _) = _
  rw [hsize]
  rfl

theorem threeFieldsMemory_stores : threeFieldsMemory.space.Stores 0x1000
    (threeFields.bytes .little ++
      longFrame.bytes .little (threeFields.entry .little 0x1000) 0x1021) := by
  unfold bytes FrameLayout.bytes
  rw [threeFields_content, longFrame_content]
  exact Snapshot.stores_region .little ⟨0x1000, _⟩ [] (by decide)

theorem threeFields_wellFormed :
    threeFields.WellFormed threeFieldsMemory.space .unknown 0x1000 where
  version := .inl rfl
  column := by decide
  personality _ _ _ :=
    ⟨by decide, ⟨.pointer, rfl, trivial⟩, Encoding.resolves_absolute⟩
  length _ := by
    change (threeFields.content .little).length + 4 < 0xffffffff
    rw [threeFields_content]
    decide
  fits := by
    change _ + (threeFields.bytes .little).length < _
    rw [bytes_length, threeFields_content]
    decide

theorem longFrame_wellFormed :
    longFrame.WellFormed (threeFields.entry .little 0x1000) threeFieldsMemory.space .unknown
      0x1021 where
  start := ⟨⟨.sdata4, by decide, by decide⟩, 0x1031, by decide, by decide⟩
  range := ⟨.sdata4, by decide, by decide⟩
  lsda := .some rfl rfl rfl (by decide) ⟨.pointer, rfl, trivial⟩ Encoding.resolves_absolute
  distance := by decide
  length := nofun
  fits := by
    change _ + (longFrame.bytes .little _ _).length < _
    rw [FrameLayout.bytes_length, longFrame_content]
    decide

/-- The frame entry leads back to the common entry in front of it. -/
theorem decode_laid_out_threeFields :
    threeFields.WellFormed threeFieldsMemory.space .unknown 0x1000 ∧
      threeFieldsMemory.space.Stores 0x1000 (threeFields.bytes .little) ∧
      longFrame.WellFormed (threeFields.entry .little 0x1000) threeFieldsMemory.space .unknown
        0x1021 ∧
      threeFieldsMemory.space.Stores 0x1021
        (longFrame.bytes .little (threeFields.entry .little 0x1000) 0x1021) ∧
      CommonEntry.decode threeFieldsMemory.space .unknown 0x1000 =
        .ok (threeFields.entry .little 0x1000) ∧
      FrameEntry.decode threeFieldsMemory.space .unknown 0x1021 =
        .ok (⟨0x1021, 34, 0x1000, 0x400000, 0x400020, some 0x55550000, ⟨0x1042, 0x1043⟩⟩,
          threeFields.entry .little 0x1000) := by
  have hcommonStored := threeFieldsMemory_stores.left
  have hframeStored := threeFieldsMemory_stores.right
  rw [bytes_length, threeFields_content] at hframeStored
  have hentry : longFrame.entry .little (threeFields.entry .little 0x1000) 0x1021 =
      ⟨0x1021, 34, 0x1000, 0x400000, 0x400020, some 0x55550000, ⟨0x1042, 0x1043⟩⟩ := by
    unfold FrameLayout.entry
    rw [FrameLayout.bytes_length, longFrame_content]
    rfl
  obtain ⟨hcommon, hframe⟩ := decode_laid_out threeFields threeFieldsMemory.space .unknown 0x1000
    threeFields_wellFormed hcommonStored
  refine ⟨threeFields_wellFormed, hcommonStored, longFrame_wellFormed, hframeStored, hcommon, ?_⟩
  rw [← hentry]
  exact hframe longFrame 0x1021 longFrame_wellFormed hframeStored

end CommonLayout

end Unwinding
