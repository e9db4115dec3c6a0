import Unwinding.CallFrame.Entry
import Unwinding.Proofs.Outcome
import Unwinding.Proofs.Reading.Success

/-!
# What decoded entries have in common

An entry that decodes says where it is, and ends behind the place where it
begins, so that a walk over the section moves on. Which bases are known decides
only whether an entry decodes: an entry that decodes with some bases decodes to
the same with more of them.
-/

namespace Unwinding

namespace EntryHead

variable {space : AddressSpace} {span span' : Span} {head : EntryHead}

/-- The rest of a head, once the length of the entry is known. -/
def sized (address length : Word) : Reading CfiError EntryHead := do
  let idField ← Reading.pos
  if UInt64.size ≤ idField.toNat + length.toNat then
    throw (.memory (.pastLimit idField length.toNat lastAddress))
  let id ← Reading.u32
  return ⟨address, idField, id, idField + length⟩

theorem reading_eq :
    reading = (do
      let address ← Reading.pos
      let short ← Reading.u32
      if short = 0 then throw (.terminator address)
      else if short = 0xffffffff then sized address (← Reading.u64)
      else sized address short.toUInt64) := by
  funext space span
  rfl

theorem sized_ok {address length : Word} (h : sized address length space span = .ok head span') :
    head.address = address ∧ span.pos ≤ head.stop := by
  unfold sized at h
  obtain ⟨idField, middle, hpos, h⟩ := Reading.bind_eq_ok.mp h
  obtain ⟨rfl, rfl⟩ := Reading.pos_eq_ok.mp hpos
  by_cases hwrap : UInt64.size ≤ span.pos.toNat + length.toNat
  · simp [hwrap] at h
  · simp only [hwrap, if_false] at h
    obtain ⟨id, middle, -, h⟩ := Reading.bind_eq_ok.mp h
    obtain ⟨rfl, -⟩ := Reading.pure_eq_ok.mp h
    refine ⟨rfl, ?_⟩
    have hstop : (span.pos + length).toNat = span.pos.toNat + length.toNat := by
      rw [UInt64.toNat_add]
      exact Nat.mod_eq_of_lt (Nat.lt_of_not_le hwrap)
    rw [UInt64.le_iff_toNat_le, hstop]
    omega

theorem reading_ok (h : reading space span = .ok head span') :
    head.address = span.pos ∧ span.pos < head.stop := by
  rw [reading_eq] at h
  obtain ⟨address, span₁, hpos, h⟩ := Reading.bind_eq_ok.mp h
  obtain ⟨rfl, rfl⟩ := Reading.pos_eq_ok.mp hpos
  obtain ⟨short, span₂, hshort, h⟩ := Reading.bind_eq_ok.mp h
  have hmoved := Reading.pos_of_u32 (Reading.liftM_eq_ok.mp hshort)
  by_cases hzero : short = 0
  · simp [hzero] at h
  rw [if_neg hzero] at h
  by_cases hlong : short = 0xffffffff
  · rw [if_pos hlong] at h
    obtain ⟨length, span₃, hlength, h⟩ := Reading.bind_eq_ok.mp h
    have hmoved' := Reading.pos_of_u64 (Reading.liftM_eq_ok.mp hlength)
    obtain ⟨haddress, hstop⟩ := sized_ok h
    refine ⟨haddress, ?_⟩
    rw [UInt64.le_iff_toNat_le] at hstop
    rw [UInt64.lt_iff_toNat_lt]
    omega
  · rw [if_neg hlong] at h
    obtain ⟨haddress, hstop⟩ := sized_ok h
    refine ⟨haddress, ?_⟩
    rw [UInt64.le_iff_toNat_le] at hstop
    rw [UInt64.lt_iff_toNat_lt]
    omega

theorem read_ok {address : Word} (h : read space address = .ok head) :
    head.address = address ∧ address < head.stop := by
  obtain ⟨span', hreading⟩ := Reading.result_eq_ok.mp h
  exact reading_ok hreading

end EntryHead

namespace CommonEntry

/-- The fields from the optional ones on. -/
def augmented (head : EntryHead) (bases : Bases) (letters : List UInt8) (version : UInt8)
    (codeFactor : Word) (dataFactor : Int64) (column : Word) : Reading CfiError CommonEntry := do
  let returnAddress ← Reading.fetch fun _ => Register.ofWord column
  let found ← augment head bases letters {
    entry := {
      address := head.address
      length := head.length
      version, codeFactor, dataFactor, returnAddress
      instructions := ⟨0, 0⟩
      pointerEncoding := .absolute
      lsdaEncoding := .absent
      personality := none
      hasAugmentation := false
      isSignalFrame := false
      signedWithBKey := false
      taggedMemory := false }
    dataEnd := none }
  let start := found.dataEnd.getD (← Reading.pos)
  return { found.entry with instructions := ⟨start, head.stop⟩ }

/-- The fields from the alignment factors on. -/
def factored (head : EntryHead) (bases : Bases) (letters : List UInt8) (version : UInt8) :
    Reading CfiError CommonEntry := do
  let codeFactor ← Reading.uleb128
  let dataFactor ← Reading.sleb128
  if version = 1 then
    augmented head bases letters version codeFactor dataFactor (← Reading.u8).toUInt64
  else augmented head bases letters version codeFactor dataFactor (← Reading.uleb128)

theorem fields_eq (head : EntryHead) (bases : Bases) :
    fields head bases = (do
      let version ← Reading.u8
      if version ≠ 1 ∧ version ≠ 3 then throw (.unsupportedVersion head.address version)
      else
        let letters ← augmentationString (← get).remaining
        if isLegacy letters then
          let _ ← Reading.pointer
          factored head bases letters version
        else factored head bases letters version) := by
  funext space span
  rfl

theorem decode_eq_ok {space : AddressSpace} {bases : Bases} {address : Word}
    {common : CommonEntry} :
    decode space bases address = .ok common ↔
      ∃ head, EntryHead.read space address = .ok head ∧ head.id = 0 ∧
        (fields head bases).result space head.body = .ok common := by
  unfold decode
  rw [Outcome.bind_eq_ok]
  refine exists_congr fun head => and_congr_right fun _ => ?_
  by_cases hid : head.id = 0 <;> simp [hid]

end CommonEntry

namespace FrameEntry

variable {space : AddressSpace} {bases : Bases} {address : Word} {entry : FrameEntry}
  {common : CommonEntry}

theorem covers_iff {pc : Word} :
    entry.covers pc = true ↔ entry.pcStart ≤ pc ∧ pc < entry.pcEnd := decide_eq_true_iff

theorem decode_eq_ok :
    decode space bases address = .ok (entry, common) ↔
      ∃ head, EntryHead.read space address = .ok head ∧ head.id ≠ 0 ∧
        CommonEntry.decode space bases (head.idField - head.id.toUInt64) = .ok common ∧
        (fields head common bases).result space head.body = .ok entry := by
  unfold decode
  rw [Outcome.bind_eq_ok]
  refine exists_congr fun head => and_congr_right fun _ => ?_
  by_cases hid : head.id = 0
  · simp [hid]
  · simp only [hid, if_false, Outcome.bind_eq_ok, Outcome.pure_eq_ok, Prod.mk.injEq]
    constructor
    · rintro ⟨_, hcommon, _, hfields, rfl, rfl⟩
      exact ⟨hid, hcommon, hfields⟩
    · rintro ⟨-, hcommon, hfields⟩
      exact ⟨common, hcommon, entry, hfields, rfl, rfl⟩

theorem address_of_fields {head : EntryHead} {span span' : Span}
    (h : fields head common bases space span = .ok entry span') :
    entry.address = head.address := by
  unfold fields at h
  obtain ⟨pcStart, span₁, -, h⟩ := Reading.bind_eq_ok.mp h
  obtain ⟨range, span₂, -, h⟩ := Reading.bind_eq_ok.mp h
  dsimp only at h
  split at h
  · obtain ⟨dataEnd, span₃, -, h⟩ := Reading.bind_eq_ok.mp h
    obtain ⟨lsda, span₄, -, h⟩ := Reading.bind_eq_ok.mp h
    obtain ⟨rfl, -⟩ := Reading.pure_eq_ok.mp h
    rfl
  · obtain ⟨start, span₃, -, h⟩ := Reading.bind_eq_ok.mp h
    obtain ⟨rfl, -⟩ := Reading.pure_eq_ok.mp h
    rfl

theorem address_of_decode (h : decode space bases address = .ok (entry, common)) :
    entry.address = address := by
  obtain ⟨head, hhead, -, -, hfields⟩ := decode_eq_ok.mp h
  obtain ⟨span', hfields⟩ := Reading.result_eq_ok.mp hfields
  rw [address_of_fields hfields]
  exact (EntryHead.read_ok hhead).1

end FrameEntry

/-- What `bases` has, `bases'` has too. -/
structure Bases.Within (bases bases' : Bases) : Prop where
  text : ∀ address, bases.text = some address → bases'.text = some address
  data : ∀ address, bases.data = some address → bases'.data = some address
  function : ∀ address, bases.function = some address → bases'.function = some address

theorem Bases.within_of_no_function (bases : Bases) :
    Bases.Within { bases with function := none } bases where
  text _ h := h
  data _ h := h
  function _ h := nomatch h

section Within

variable {bases bases' : Bases}

/-- The address that `application` makes stored values relative to. -/
def Bases.supplies (bases : Bases) (field : Word) : Application → Option Word
  | .absolute => some 0
  | .field => some field
  | .text => bases.text
  | .data => bases.data
  | .function => bases.function
  | .aligned => none

theorem Encoding.base_eq_ok {encoding : Encoding} {field base : Word} :
    encoding.base bases field = .ok base ↔
      ∃ application, encoding.application = some application ∧
        bases.supplies field application = some base := by
  unfold Encoding.base
  cases encoding.application with
  | none => simp
  | some application =>
    cases application with
    | text => cases h : bases.text <;> simp [Bases.supplies, h]
    | data => cases h : bases.data <;> simp [Bases.supplies, h]
    | function => cases h : bases.function <;> simp [Bases.supplies, h]
    | _ => simp [Bases.supplies]

theorem Encoding.base_within (h : bases.Within bases') (encoding : Encoding) (field base : Word)
    (hbase : encoding.base bases field = .ok base) : encoding.base bases' field = .ok base := by
  obtain ⟨application, happlication, hsupplied⟩ := base_eq_ok.mp hbase
  refine base_eq_ok.mpr ⟨application, happlication, ?_⟩
  cases application with
  | text => exact h.text base hsupplied
  | data => exact h.data base hsupplied
  | function => exact h.function base hsupplied
  | _ => exact hsupplied

theorem Reading.encodedPointer_within (h : bases.Within bases') (encoding : Encoding) :
    (encodedPointer encoding bases).Within (encodedPointer encoding bases') := by
  unfold encodedPointer
  refine .bind (.refl _) fun field => ?_
  cases encoding.format with
  | none => exact .refl _
  | some format =>
    refine .bind (.refl _) fun value => ?_
    exact .bind (.fetch fun _ => encoding.base_within h field) fun base => .refl _

theorem CommonEntry.augment_within (h : bases.Within bases') (head : EntryHead)
    (letters : List UInt8) (found : Augmented) :
    (augment head bases letters found).Within (augment head bases' letters found) := by
  induction letters generalizing found with
  | nil => exact .refl _
  | cons letter letters ih =>
    unfold augment
    split
    · exact .bind (.refl _) fun dataEnd => ih _
    · refine .bind (.refl _) fun encoding => ?_
      exact .bind (.liftM (Reading.encodedPointer_within h _)) fun routine => ih _
    · exact .bind (.refl _) fun encoding => ih _
    · exact .bind (.refl _) fun encoding => ih _
    · exact ih _
    · exact ih _
    · exact ih _
    · exact ih _
    · exact ih _
    · exact .refl _

theorem CommonEntry.augmented_within (h : bases.Within bases') (head : EntryHead)
    (letters : List UInt8) (version : UInt8) (codeFactor : Word) (dataFactor : Int64)
    (column : Word) :
    (augmented head bases letters version codeFactor dataFactor column).Within
      (augmented head bases' letters version codeFactor dataFactor column) := by
  unfold augmented
  refine .bind (.refl _) fun returnAddress => ?_
  exact .bind (augment_within h head letters _) fun found => .refl _

theorem CommonEntry.factored_within (h : bases.Within bases') (head : EntryHead)
    (letters : List UInt8) (version : UInt8) :
    (factored head bases letters version).Within (factored head bases' letters version) := by
  unfold factored
  refine .bind (.refl _) fun codeFactor => .bind (.refl _) fun dataFactor => ?_
  split
  · exact .bind (.refl _) fun column => augmented_within h head letters _ _ _ _
  · exact .bind (.refl _) fun column => augmented_within h head letters _ _ _ _

theorem CommonEntry.fields_within (h : bases.Within bases') (head : EntryHead) :
    (fields head bases).Within (fields head bases') := by
  rw [fields_eq, fields_eq]
  refine .bind (.refl _) fun version => ?_
  split
  · exact .refl _
  · refine .bind (.refl _) fun span => .bind (.refl _) fun letters => ?_
    split
    · exact .bind (.refl _) fun table => factored_within h head letters version
    · exact factored_within h head letters version

theorem CommonEntry.decode_within (h : bases.Within bases') {space : AddressSpace} {address : Word}
    {common : CommonEntry} (hok : decode space bases address = .ok common) :
    decode space bases' address = .ok common := by
  obtain ⟨head, hhead, hid, hfields⟩ := decode_eq_ok.mp hok
  exact decode_eq_ok.mpr ⟨head, hhead, hid, (fields_within h head).result hfields⟩

theorem FrameEntry.lsdaField_within (h : bases.Within bases') (common : CommonEntry) :
    (lsdaField common bases).Within (lsdaField common bases') := by
  have hpointer := fun encoding => Reading.Within.liftM (Reading.encodedPointer_within h encoding)
  unfold lsdaField
  split
  · exact .refl _
  · refine .bind (.refl _) fun field => .bind (hpointer _) fun stored => ?_
    split
    · exact .refl _
    · exact .bind (.refl _) fun _ => .bind (hpointer _) fun address => .refl _

theorem FrameEntry.fields_within (h : bases.Within bases') (head : EntryHead)
    (common : CommonEntry) :
    (fields head common bases).Within (fields head common bases') := by
  have hpointer := fun encoding => Reading.Within.liftM (Reading.encodedPointer_within h encoding)
  unfold fields
  refine .bind (hpointer _) fun pcStart => .bind (hpointer _) fun range => ?_
  dsimp only
  split
  · refine .bind (.refl _) fun dataEnd => ?_
    exact .bind (lsdaField_within h common) fun lsda => .refl _
  · exact .refl _

/-- What is decoded with some bases is decoded alike with more. -/
theorem FrameEntry.decode_within (h : bases.Within bases') {space : AddressSpace} {address : Word}
    {entry : FrameEntry} {common : CommonEntry}
    (hok : decode space bases address = .ok (entry, common)) :
    decode space bases' address = .ok (entry, common) := by
  obtain ⟨head, hhead, hid, hcommon, hfields⟩ := decode_eq_ok.mp hok
  exact decode_eq_ok.mpr ⟨head, hhead, hid, CommonEntry.decode_within h hcommon,
    (fields_within h head common).result hfields⟩

end Within

end Unwinding
