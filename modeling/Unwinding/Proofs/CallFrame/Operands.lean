import Unwinding.Memory.Snapshot
import Unwinding.Proofs.CallFrame.AugmentationLog
import Unwinding.Proofs.CallFrame.Decoding
import Unwinding.Proofs.Reading.Confined
import Unwinding.Proofs.Reading.Spelling

/-!
# Where the augmentation data is read

An entry declares how long its augmentation data is, and its instructions begin
where the declared data ends. The operands that the augmentation string asks for are
read one behind another from where the data begins, but the declared length does not
end them. They are in the data, and apart from the instructions, just where the
length is enough for what the string requires. Where it is not, the entry is decoded
all the same, and the same bytes are operands and instructions.
-/

namespace Unwinding

namespace CommonEntry

/-- The letters that say something. Any other one ends the walk. -/
def knownLetters : List UInt8 := [0x7a, 0x50, 0x4c, 0x52, 0x53, 0x42, 0x47, 0x65, 0x68]

/-- The letters that have operands. -/
def operandLetters : List UInt8 := [0x50, 0x4c, 0x52]

theorem operand_known : ∀ letter ∈ operandLetters, letter ∈ knownLetters := by
  simp [operandLetters, knownLetters]

end CommonEntry

open CommonEntry in
/-- What is added for a letter whose fields were in `extent`. Where it gives the length
of the data, the operands so far were read too early. -/
def AugmentationLog.record (log : AugmentationLog) (letter : UInt8) (extent : Span)
    (found : Augmented) : AugmentationLog :=
  if letter = 0x7a then
    ⟨log.early ++ log.late, found.dataEnd.map fun dataEnd => ⟨extent.limit, dataEnd⟩, []⟩
  else if letter ∈ operandLetters then { log with late := log.late ++ [extent] }
  else log

namespace CommonEntry

/-- Reads the optional fields letter by letter, and keeps a log. -/
def logged (head : EntryHead) (bases : Bases) :
    List UInt8 → Augmented → AugmentationLog → Reading CfiError (Augmented × AugmentationLog)
  | [], found, log => return (found, log)
  | letter :: letters, found, log => do
    let (found, extent) ← (augment head bases [letter] found).extent
    if letter ∈ knownLetters then
      logged head bases letters found (log.record letter extent found)
    else return (found, log)

/-- What the letters find: the alignment factors and the column, and nothing else yet. -/
def columned (head : EntryHead) (letters : List UInt8) (version : UInt8) (codeFactor : Word)
    (dataFactor : Int64) (column : Word) : Reading CfiError (List UInt8 × Augmented) := do
  let returnAddress ← Reading.fetch fun _ => Register.ofWord column
  return (letters, {
    entry := {
      address := head.address
      length := head.length
      version, codeFactor, dataFactor, returnAddress
      instructions := ⟨0, 0⟩
      pointerEncoding := .absolute
      lsdaEncoding := .absent
      personality := none
      hasAugmentation := false
      isSignalFrame := false
      signedWithBKey := false
      taggedMemory := false }
    dataEnd := none })

def factors (head : EntryHead) (letters : List UInt8) (version : UInt8) :
    Reading CfiError (List UInt8 × Augmented) := do
  let codeFactor ← Reading.uleb128
  let dataFactor ← Reading.sleb128
  if version = 1 then
    columned head letters version codeFactor dataFactor (← Reading.u8).toUInt64
  else columned head letters version codeFactor dataFactor (← Reading.uleb128)

/-- The fields in front of the optional ones, with the letters of these. -/
def front (head : EntryHead) : Reading CfiError (List UInt8 × Augmented) := do
  let version ← Reading.u8
  if version ≠ 1 ∧ version ≠ 3 then throw (.unsupportedVersion head.address version)
  else
    let letters ← augmentationString (← get).remaining
    if isLegacy letters then
      let _ ← Reading.pointer
      factors head letters version
    else factors head letters version

/-- The fields of a common entry, and where their operands are. -/
def fieldsLogged (head : EntryHead) (bases : Bases) :
    Reading CfiError (CommonEntry × AugmentationLog) := do
  let (letters, found) ← front head
  let (found, log) ← logged head bases letters found ⟨[], none, []⟩
  let start := found.dataEnd.getD (← Reading.pos)
  return ({ found.entry with instructions := ⟨start, head.stop⟩ }, log)

theorem fields_eq_front (head : EntryHead) (bases : Bases) :
    fields head bases = (do
      let (letters, found) ← front head
      let found ← augment head bases letters found
      let start := found.dataEnd.getD (← Reading.pos)
      return { found.entry with instructions := ⟨start, head.stop⟩ }) := by
  rw [fields_eq]
  unfold front
  rw [bind_assoc]
  refine bind_congr fun version => ?_
  split
  · rfl
  · simp only [bind_assoc]
    refine bind_congr fun span => bind_congr fun letters => ?_
    unfold factored factors augmented columned
    split <;> simp only [bind_assoc]
    · refine bind_congr fun table => bind_congr fun codeFactor => bind_congr fun dataFactor => ?_
      split <;> simp only [bind_assoc, pure_bind]
    · refine bind_congr fun codeFactor => bind_congr fun dataFactor => ?_
      split <;> simp only [bind_assoc, pure_bind]

variable {head : EntryHead} {bases : Bases} {letter : UInt8} {letters : List UInt8}
  {found found' : Augmented} {space : AddressSpace} {span span' : Span} {log : AugmentationLog}

theorem augment_cons (head : EntryHead) (bases : Bases) (letter : UInt8) (letters : List UInt8)
    (found : Augmented) : augment head bases (letter :: letters) found = (do
      let found ← augment head bases [letter] found
      if letter ∈ knownLetters then augment head bases letters found else return found) := by
  conv => lhs; unfold augment
  split
  case h_10 hz hP hL hR hS hB hG he hh =>
    have hunknown : letter ∉ knownLetters := by
      simp only [knownLetters, List.mem_cons, List.not_mem_nil, or_false, not_or]
      exact ⟨hz, hP, hL, hR, hS, hB, hG, he, hh⟩
    have hlast : augment head bases [letter] found = if found.dataEnd.isSome then pure found
        else throw (.unknownAugmentation head.address letter) := by
      unfold augment
      split
      case h_10 => rfl
      all_goals contradiction
    simp only [hlast, if_neg hunknown, bind_pure]
  all_goals simp [augment, knownLetters]

theorem augment_eq_ok : augment head bases letters found space span = .ok found' span' ↔
    ∃ log', logged head bases letters found log space span = .ok (found', log') span' := by
  induction letters generalizing found span log with
  | nil => simp [augment, logged]
  | cons letter letters ih =>
    rw [augment_cons]
    unfold logged
    simp only [Reading.bind_eq_ok, Prod.exists, Reading.extent_eq_ok]
    by_cases hknown : letter ∈ knownLetters
    · simp only [if_pos hknown]
      constructor
      · rintro ⟨middle, span₁, hfirst, hrest⟩
        have hlogged : ∃ log', logged head bases letters middle
            (log.record letter ⟨span.pos, span₁.pos⟩ middle) space span₁ =
              .ok (found', log') span' := ih.mp hrest
        obtain ⟨log', hlogged⟩ := hlogged
        exact ⟨log', middle, _, span₁, ⟨hfirst, rfl⟩, hlogged⟩
      · rintro ⟨log', middle, _, span₁, ⟨hfirst, rfl⟩, hlogged⟩
        exact ⟨middle, span₁, hfirst, ih.mpr ⟨log', hlogged⟩⟩
    · simp only [if_neg hknown, Reading.pure_eq_ok, Prod.mk.injEq]
      constructor
      · rintro ⟨_, _, hfirst, rfl, rfl⟩
        exact ⟨log, _, _, _, ⟨hfirst, rfl⟩, ⟨rfl, rfl⟩, rfl⟩
      · rintro ⟨_, _, _, _, ⟨hfirst, -⟩, ⟨rfl, -⟩, rfl⟩
        exact ⟨_, _, hfirst, rfl, rfl⟩

/-! ## The walk over the letters -/

theorem after_of_u8 {byte : UInt8} (h : (liftM Reading.u8 : Reading CfiError UInt8) space span =
    .ok byte span') : 1 ≤ span.remaining ∧ span' = span.after 1 := by
  obtain ⟨hroom, -, rfl⟩ := Reading.u8_eq_ok.mp (Reading.liftM_eq_ok.mp h)
  refine ⟨?_, rfl⟩
  unfold Span.remaining
  omega

theorem after_of_augmentationEnd {dataEnd : Word}
    (h : head.augmentationEnd space span = .ok dataEnd span') :
    ∃ count, count ≤ span.remaining ∧ span' = span.after count ∧
      span'.pos ≤ dataEnd ∧ dataEnd ≤ head.stop := by
  obtain ⟨length, middle, hlength, h⟩ := Reading.bind_eq_ok.mp h
  obtain ⟨start, _, hstart, h⟩ := Reading.bind_eq_ok.mp h
  obtain ⟨rfl, rfl⟩ := Reading.pos_eq_ok.mp hstart
  obtain ⟨count, hcount, rfl, -⟩ := Reading.parses_uleb128.sound (Reading.liftM_eq_ok.mp hlength)
  split at h
  · rename_i hfits
    obtain ⟨rfl, rfl⟩ := Reading.pure_eq_ok.mp h
    have hend : ((span.after count).pos + length).toNat =
        (span.after count).pos.toNat + length.toNat := by
      rw [UInt64.toNat_add]
      exact Nat.mod_eq_of_lt (Nat.lt_of_le_of_lt hfits head.stop.toNat_lt)
    refine ⟨count, hcount, rfl, ?_, ?_⟩ <;> rw [UInt64.le_iff_toNat_le, hend]
    · exact Nat.le_add_right _ _
    · exact hfits
  · exact (Reading.throw_eq_ok.mp h).elim

theorem length_step (h : augment head bases [0x7a] found space span = .ok found' span') :
    ∃ count dataEnd, count ≤ span.remaining ∧ span' = span.after count ∧
      found' = ⟨{ found.entry with hasAugmentation := true }, some dataEnd⟩ ∧
      span'.pos ≤ dataEnd ∧ dataEnd ≤ head.stop := by
  simp only [augment, Reading.bind_eq_ok, Reading.pure_eq_ok] at h
  obtain ⟨dataEnd, _, hend, rfl, rfl⟩ := h
  obtain ⟨count, hcount, hspan, hbegins, hends⟩ := after_of_augmentationEnd hend
  exact ⟨count, dataEnd, hcount, hspan, rfl, hbegins, hends⟩

theorem operand_step (hletter : letter ∈ operandLetters)
    (h : augment head bases [letter] found space span = .ok found' span') :
    ∃ count, 0 < count ∧ count ≤ span.remaining ∧ span' = span.after count ∧
      found'.dataEnd = found.dataEnd ∧
      found'.entry.hasAugmentation = found.entry.hasAugmentation := by
  simp only [operandLetters, List.mem_cons, List.not_mem_nil, or_false] at hletter
  rcases hletter with rfl | rfl | rfl <;>
    simp only [augment, Reading.bind_eq_ok, Reading.pure_eq_ok] at h
  · obtain ⟨encoding, middle, hencoding, routine, _, hroutine, rfl, rfl⟩ := h
    obtain ⟨hone, rfl⟩ := after_of_u8 hencoding
    obtain ⟨count, -, hcount, rfl⟩ :=
      Reading.after_of_encodedPointer (Reading.liftM_eq_ok.mp hroutine)
    rw [Span.remaining_after hone] at hcount
    exact ⟨1 + count, by omega, by omega, Span.after_after span 1 count, rfl, rfl⟩
  all_goals
    obtain ⟨encoding, _, hencoding, rfl, rfl⟩ := h
    obtain ⟨hone, rfl⟩ := after_of_u8 hencoding
    exact ⟨1, Nat.one_pos, hone, rfl, rfl, rfl⟩

theorem other_step (hz : letter ≠ 0x7a) (hletter : letter ∉ operandLetters)
    (h : augment head bases [letter] found space span = .ok found' span') :
    span' = span ∧ found'.dataEnd = found.dataEnd ∧
      found'.entry.hasAugmentation = found.entry.hasAugmentation := by
  unfold augment at h
  split at h
  case h_1 => exact absurd rfl hz
  case h_2 => exact absurd (by decide) hletter
  case h_3 => exact absurd (by decide) hletter
  case h_4 => exact absurd (by decide) hletter
  case h_10 =>
    split at h
    · obtain ⟨rfl, rfl⟩ := Reading.pure_eq_ok.mp h
      exact ⟨rfl, rfl, rfl⟩
    · exact (Reading.throw_eq_ok.mp h).elim
  all_goals
    obtain ⟨rfl, rfl⟩ := Reading.pure_eq_ok.mp h
    exact ⟨rfl, rfl, rfl⟩

/-- What is known of the log wherever the walk stands. -/
structure Walked (head : EntryHead) (span : Span) (found : Augmented) (log : AugmentationLog) :
    Prop where
  limit : span.limit = head.stop
  room : span.pos ≤ span.limit
  dataEnd : found.dataEnd = log.data.map Span.limit
  declared : found.entry.hasAugmentation = log.data.isSome
  behind : ∀ operand ∈ log.operands, operand.pos < operand.limit ∧ operand.limit ≤ span.pos
  placed : ∀ data, log.data = some data → log.Placed data span.pos head.stop

theorem Walked.length (h : Walked head span found log)
    (hstep : augment head bases [0x7a] found space span = .ok found' span') :
    Walked head span' found' ⟨log.early ++ log.late,
      found'.dataEnd.map fun dataEnd => ⟨span'.pos, dataEnd⟩, []⟩ := by
  obtain ⟨count, dataEnd, hcount, rfl, rfl, hbegins, hends⟩ := length_step hstep
  obtain ⟨hpos, hroom⟩ := Span.pos_after hcount h.room
  have hforward : span.pos ≤ (span.after count).pos := by
    rw [UInt64.le_iff_toNat_le, hpos]
    exact Nat.le_add_right _ _
  have hbehind : ∀ operand ∈ log.early ++ log.late, operand.pos < operand.limit ∧
      operand.limit ≤ (span.after count).pos := fun operand hmem =>
    ⟨(h.behind operand hmem).1, UInt64.le_trans (h.behind operand hmem).2 hforward⟩
  refine ⟨h.limit, hroom, rfl, rfl, ?_, ?_⟩
  · intro operand hmem
    unfold AugmentationLog.operands at hmem
    rw [List.append_nil] at hmem
    exact hbehind operand hmem
  · rintro data hdata
    cases hdata
    exact ⟨⟨hbegins, hends⟩, hbehind, .nil, h.limit ▸ hroom⟩

theorem Walked.operand (h : Walked head span found log) (hletter : letter ∈ operandLetters)
    (hstep : augment head bases [letter] found space span = .ok found' span') :
    Walked head span' found' { log with late := log.late ++ [⟨span.pos, span'.pos⟩] } := by
  obtain ⟨count, hpositive, hcount, rfl, hdataEnd, hdeclared⟩ := operand_step hletter hstep
  obtain ⟨hpos, hroom⟩ := Span.pos_after hcount h.room
  have hforward : span.pos < (span.after count).pos := by
    rw [UInt64.lt_iff_toNat_lt, hpos]
    exact Nat.lt_add_of_pos_right hpositive
  refine ⟨h.limit, hroom, hdataEnd.trans h.dataEnd, hdeclared.trans h.declared, ?_, ?_⟩
  · intro operand hmem
    unfold AugmentationLog.operands at hmem
    rw [← List.append_assoc, List.mem_append] at hmem
    rcases hmem with hmem | hmem
    · exact ⟨(h.behind operand hmem).1,
        UInt64.le_trans (h.behind operand hmem).2 (UInt64.le_of_lt hforward)⟩
    · rw [List.mem_singleton] at hmem
      subst hmem
      exact ⟨hforward, UInt64.le_refl _⟩
  · intro data hdata
    have hplaced := h.placed data hdata
    exact ⟨hplaced.fits, hplaced.early, hplaced.late.snoc hforward, h.limit ▸ hroom⟩

theorem Walked.other (h : Walked head span found log) (hz : letter ≠ 0x7a)
    (hletter : letter ∉ operandLetters)
    (hstep : augment head bases [letter] found space span = .ok found' span') :
    Walked head span' found' log := by
  obtain ⟨rfl, hdataEnd, hdeclared⟩ := other_step hz hletter hstep
  exact ⟨h.limit, h.room, hdataEnd.trans h.dataEnd, hdeclared.trans h.declared, h.behind,
    h.placed⟩

theorem Walked.step (h : Walked head span found log)
    (hstep : augment head bases [letter] found space span = .ok found' span') :
    Walked head span' found' (log.record letter ⟨span.pos, span'.pos⟩ found') := by
  unfold AugmentationLog.record
  by_cases hz : letter = 0x7a
  · subst hz
    exact h.length hstep
  · rw [if_neg hz]
    by_cases hletter : letter ∈ operandLetters
    · rw [if_pos hletter]
      exact h.operand hletter hstep
    · rw [if_neg hletter]
      exact h.other hz hletter hstep

theorem Walked.run {log' : AugmentationLog} (h : Walked head span found log)
    (hrun : logged head bases letters found log space span = .ok (found', log') span') :
    Walked head span' found' log' := by
  induction letters generalizing found span log with
  | nil =>
    obtain ⟨hresult, rfl⟩ := Reading.pure_eq_ok.mp hrun
    cases hresult
    exact h
  | cons letter letters ih =>
    obtain ⟨⟨middle, extent⟩, span₁, hextent, hrest⟩ := Reading.bind_eq_ok.mp hrun
    obtain ⟨hfirst, rfl⟩ := Reading.extent_eq_ok.mp hextent
    dsimp only at hrest
    split at hrest
    · exact ih (h.step hfirst) hrest
    · rename_i hunknown
      obtain ⟨hresult, rfl⟩ := Reading.pure_eq_ok.mp hrest
      cases hresult
      have hz : letter ≠ 0x7a := by
        rintro rfl
        exact hunknown (by decide)
      have hletter : letter ∉ operandLetters := fun hmem => hunknown (operand_known letter hmem)
      exact h.other hz hletter hfirst

theorem confined_augmentationString (left : Nat) : (augmentationString left).Confined := by
  induction left with
  | zero => exact .bind .get fun _ => .throw _
  | succ left ih =>
    refine .bind (Reading.confined_u8.mapError _) fun byte => ?_
    split
    · exact .pure _
    · exact .bind ih fun _ => .pure _

theorem confined_factors (head : EntryHead) (letters : List UInt8) (version : UInt8) :
    (factors head letters version).Confined := by
  refine .bind (Reading.confined_uleb128.mapError _) fun codeFactor => ?_
  refine .bind (Reading.confined_sleb128.mapError _) fun dataFactor => ?_
  refine .ite (.bind (Reading.confined_u8.mapError _) fun column => ?_)
    (.bind (Reading.confined_uleb128.mapError _) fun column => ?_)
  all_goals exact .bind (.known _) fun _ => .pure _

theorem confined_front (head : EntryHead) : (front head).Confined := by
  refine .bind (Reading.confined_u8.mapError _) fun version => .ite (.throw _) ?_
  refine .bind .get fun span => .bind (confined_augmentationString _) fun letters => ?_
  refine .ite (.bind (Reading.confined_pointer.mapError _) fun _ => ?_) ?_
  all_goals exact confined_factors head letters version

theorem found_of_factors {version : UInt8} {letters' : List UInt8}
    (h : factors head letters version space span = .ok (letters', found) span') :
    found.dataEnd = none ∧ found.entry.hasAugmentation = false := by
  obtain ⟨codeFactor, _, -, h⟩ := Reading.bind_eq_ok.mp h
  obtain ⟨dataFactor, _, -, h⟩ := Reading.bind_eq_ok.mp h
  split at h
  all_goals
    obtain ⟨column, _, -, h⟩ := Reading.bind_eq_ok.mp h
    obtain ⟨returnAddress, _, -, h⟩ := Reading.bind_eq_ok.mp h
    obtain ⟨hresult, -⟩ := Reading.pure_eq_ok.mp h
    cases hresult
    exact ⟨rfl, rfl⟩

theorem found_of_front (h : front head space span = .ok (letters, found) span') :
    found.dataEnd = none ∧ found.entry.hasAugmentation = false := by
  obtain ⟨version, _, -, h⟩ := Reading.bind_eq_ok.mp h
  split at h
  · exact (Reading.throw_eq_ok.mp h).elim
  · obtain ⟨_, _, -, h⟩ := Reading.bind_eq_ok.mp h
    obtain ⟨letters, _, -, h⟩ := Reading.bind_eq_ok.mp h
    split at h
    · obtain ⟨table, _, -, h⟩ := Reading.bind_eq_ok.mp h
      exact found_of_factors h
    · exact found_of_factors h

theorem walked_of_front (hlimit : span.limit = head.stop)
    (h : front head space span = .ok (letters, found) span') :
    Walked head span' found ⟨[], none, []⟩ := by
  obtain ⟨version, middle, hversion, -⟩ := Reading.bind_eq_ok.mp h
  obtain ⟨hroom, -, -⟩ := Reading.u8_eq_ok.mp (Reading.liftM_eq_ok.mp hversion)
  have hspan : span.pos ≤ span.limit := by
    rw [UInt64.le_iff_toNat_le]
    omega
  have hleaves := (confined_front head).leaves space span hspan
  rw [h] at hleaves
  obtain ⟨hdataEnd, hdeclared⟩ := found_of_front h
  exact ⟨hleaves.limit.trans hlimit, hleaves.limit ▸ hleaves.inside, hdataEnd, hdeclared,
    nofun, nofun⟩

theorem account_of_decode {address : Word} {common : CommonEntry}
    (h : decode space bases address = .ok common) (hdata : common.hasAugmentation = true) :
    ∃ head log data, EntryHead.read space address = .ok head ∧
      (fieldsLogged head bases).result space head.body = .ok (common, log) ∧
      log.data = some data ∧ log.Account data common.instructions head.stop := by
  obtain ⟨head, hhead, -, hfields⟩ := decode_eq_ok.mp h
  obtain ⟨_, hfields⟩ := Reading.result_eq_ok.mp hfields
  rw [fields_eq_front] at hfields
  obtain ⟨⟨letters, found⟩, middle, hfront, hfields⟩ := Reading.bind_eq_ok.mp hfields
  obtain ⟨found', last, haugment, hfields⟩ := Reading.bind_eq_ok.mp hfields
  obtain ⟨start, _, hstart, hfields⟩ := Reading.bind_eq_ok.mp hfields
  obtain ⟨rfl, rfl⟩ := Reading.pos_eq_ok.mp hstart
  obtain ⟨rfl, rfl⟩ := Reading.pure_eq_ok.mp hfields
  obtain ⟨log, hlogged⟩ := augment_eq_ok.mp haugment
  have hwalked := (walked_of_front rfl hfront).run hlogged
  obtain ⟨data, hlog⟩ : ∃ data, log.data = some data :=
    Option.isSome_iff_exists.mp (hwalked.declared.symm.trans hdata)
  have haccount := (hwalked.placed data hlog).account
  have hend : found'.dataEnd = some data.limit := by rw [hwalked.dataEnd, hlog]; rfl
  refine ⟨head, log, data, hhead, ?_, hlog, ?_⟩
  · exact Reading.result_eq_ok.mpr ⟨last, Reading.bind_eq_ok.mpr ⟨_, middle, hfront,
      Reading.bind_eq_ok.mpr ⟨_, last, hlogged, Reading.bind_eq_ok.mpr ⟨_, last, rfl, rfl⟩⟩⟩⟩
  · rw [hend]
    exact haccount

end CommonEntry

namespace FrameEntry

variable {head : EntryHead} {common : CommonEntry} {bases : Bases} {space : AddressSpace}
  {span span' : Span}

/-- The fields of a frame entry, and where the address of its language data is. -/
def fieldsLogged (head : EntryHead) (common : CommonEntry) (bases : Bases) :
    Reading CfiError (FrameEntry × AugmentationLog) := do
  let pcStart ← Reading.encodedPointer common.pointerEncoding bases
  let range ← Reading.encodedPointer common.pointerEncoding.valueOnly bases
  let entry : FrameEntry := {
    address := head.address
    length := head.length
    common := common.address
    pcStart
    pcEnd := pcStart + range
    lsda := none
    instructions := ⟨0, head.stop⟩ }
  if common.hasAugmentation then
    let dataEnd ← head.augmentationEnd
    let start ← Reading.pos
    let (lsda, extent) ← (lsdaField common bases).extent
    let late := if common.lsdaEncoding.isAbsent then [] else [extent]
    return ({ entry with lsda, instructions := ⟨dataEnd, head.stop⟩ },
      ⟨[], some ⟨start, dataEnd⟩, late⟩)
  else return ({ entry with instructions := ⟨← Reading.pos, head.stop⟩ }, ⟨[], none, []⟩)

theorem after_of_lsdaField {lsda : Option Word} (habsent : common.lsdaEncoding.isAbsent = false)
    (h : lsdaField common bases space span = .ok lsda span') :
    (∃ count, 0 < count ∧ count ≤ span.remaining ∧ span' = span.after count) ∧
      ∃ stored, Reading.encodedPointer common.lsdaEncoding.valueOnly bases space span =
        .ok stored span' := by
  unfold lsdaField at h
  rw [habsent, if_neg Bool.false_ne_true] at h
  obtain ⟨field, _, hfield, h⟩ := Reading.bind_eq_ok.mp h
  obtain ⟨rfl, rfl⟩ := Reading.pos_eq_ok.mp hfield
  obtain ⟨stored, middle, hstored, h⟩ := Reading.bind_eq_ok.mp h
  have hfirst := Reading.liftM_eq_ok.mp hstored
  obtain ⟨count, hpositive, hcount, rfl⟩ := Reading.after_of_encodedPointer hfirst
  split at h
  · obtain ⟨-, rfl⟩ := Reading.pure_eq_ok.mp h
    exact ⟨⟨count, hpositive, hcount, rfl⟩, stored, hfirst⟩
  · obtain ⟨_, again, hseek, h⟩ := Reading.bind_eq_ok.mp h
    obtain ⟨target, last, hsecond, h⟩ := Reading.bind_eq_ok.mp h
    obtain ⟨-, rfl⟩ := Reading.pure_eq_ok.mp h
    have hagain : again = span := by cases hseek; rfl
    subst hagain
    rw [Reading.encodedPointer_valueOnly (Reading.liftM_eq_ok.mp hsecond) hfirst]
    exact ⟨⟨count, hpositive, hcount, rfl⟩, stored, hfirst⟩

theorem room_of_data {pcStart range dataEnd : Word} {span₁ span₂ span₃ : Span}
    (hstart : Reading.encodedPointer common.pointerEncoding bases space span = .ok pcStart span₁)
    (hrange : Reading.encodedPointer common.pointerEncoding.valueOnly bases space span₁ =
      .ok range span₂)
    (hend : head.augmentationEnd space span₂ = .ok dataEnd span₃) :
    span₃.limit = span.limit ∧ span₃.pos ≤ span₃.limit ∧ span₃.pos ≤ dataEnd ∧
      dataEnd ≤ head.stop := by
  obtain ⟨_, hpositive, hcount₁, rfl⟩ := Reading.after_of_encodedPointer hstart
  have hroom := Span.le_of_remaining (Nat.lt_of_lt_of_le hpositive hcount₁)
  have hroom₁ := (Span.pos_after hcount₁ hroom).2
  obtain ⟨_, -, hcount₂, rfl⟩ := Reading.after_of_encodedPointer hrange
  have hroom₂ := (Span.pos_after hcount₂ hroom₁).2
  obtain ⟨_, hcount₃, rfl, hfits⟩ := CommonEntry.after_of_augmentationEnd hend
  exact ⟨rfl, (Span.pos_after hcount₃ hroom₂).2, hfits⟩

/-- The operand for the language data, if there is one, begins the data. It ends where
its encoding says, whatever is added to the stored value. -/
theorem placed_of_lsdaField {lsda : Option Word} {dataEnd stop : Word}
    (h : lsdaField common bases space span = .ok lsda span') (hlimit : span.limit = stop)
    (hroom : span.pos ≤ span.limit) (hfits : span.pos ≤ dataEnd ∧ dataEnd ≤ stop) :
    let late : List Span :=
      if common.lsdaEncoding.isAbsent then [] else [⟨span.pos, span'.pos⟩]
    (∃ reached, AugmentationLog.Placed ⟨[], some ⟨span.pos, dataEnd⟩, late⟩
        ⟨span.pos, dataEnd⟩ reached stop) ∧
      ∀ operand ∈ late, ∀ encoding ∈ [common.lsdaEncoding.valueOnly, common.lsdaEncoding],
        ∀ target last, Reading.encodedPointer encoding bases space span = .ok target last →
          operand = ⟨span.pos, last.pos⟩ := by
  subst hlimit
  intro late
  cases habsent : common.lsdaEncoding.isAbsent with
  | true =>
    have hlate : late = [] := if_pos habsent
    rw [hlate]
    exact ⟨⟨span.pos, hfits, nofun, .nil, hroom⟩, nofun⟩
  | false =>
    have hlate : late = [] ++ [⟨span.pos, span'.pos⟩] := if_neg (by rw [habsent]; decide)
    rw [hlate]
    obtain ⟨⟨count, hpositive, hcount, rfl⟩, stored, hstored⟩ := after_of_lsdaField habsent h
    obtain ⟨hpos, hinside⟩ := Span.pos_after hcount hroom
    have hforward : span.pos < (span.after count).pos := by
      rw [UInt64.lt_iff_toNat_lt, hpos]
      exact Nat.lt_add_of_pos_right hpositive
    refine ⟨⟨_, hfits, nofun, .snoc .nil hforward, hinside⟩,
      fun operand hmem encoding hencoding target last hread => ?_⟩
    rw [List.nil_append, List.mem_singleton] at hmem
    subst hmem
    have hsame : last = span.after count := by
      rcases List.mem_cons.mp hencoding with rfl | hencoding
      · rw [hstored] at hread
        cases hread
        rfl
      · rw [List.mem_singleton] at hencoding
        subst hencoding
        exact Reading.encodedPointer_valueOnly hread hstored
    rw [hsame]

theorem account_of_decode {address : Word} {entry : FrameEntry}
    (h : decode space bases address = .ok (entry, common))
    (hdata : common.hasAugmentation = true) :
    ∃ head log data, EntryHead.read space address = .ok head ∧
      (fieldsLogged head common bases).result space head.body = .ok (entry, log) ∧
      log.data = some data ∧ log.Account data entry.instructions head.stop ∧
      log.early = [] ∧ ∀ operand ∈ log.late, ∀ encoding ∈
        [common.lsdaEncoding.valueOnly, common.lsdaEncoding], ∀ target span,
          Reading.encodedPointer encoding bases space ⟨data.pos, head.stop⟩ = .ok target span →
            operand = ⟨data.pos, span.pos⟩ := by
  obtain ⟨head, hhead, -, -, hfields⟩ := decode_eq_ok.mp h
  obtain ⟨_, hfields⟩ := Reading.result_eq_ok.mp hfields
  unfold fields at hfields
  obtain ⟨pcStart, span₁, hstart, hfields⟩ := Reading.bind_eq_ok.mp hfields
  obtain ⟨range, span₂, hrange, hfields⟩ := Reading.bind_eq_ok.mp hfields
  dsimp only at hfields
  rw [if_pos hdata] at hfields
  obtain ⟨dataEnd, span₃, hend, hfields⟩ := Reading.bind_eq_ok.mp hfields
  obtain ⟨lsda, span₄, hlsda, hfields⟩ := Reading.bind_eq_ok.mp hfields
  obtain ⟨hentry, rfl⟩ := Reading.pure_eq_ok.mp hfields
  obtain ⟨hlimit, hroom, hfits⟩ :=
    room_of_data (Reading.liftM_eq_ok.mp hstart) (Reading.liftM_eq_ok.mp hrange) hend
  change span₃.limit = head.stop at hlimit
  have hspan : (⟨span₃.pos, head.stop⟩ : Span) = span₃ := by rw [← hlimit]
  obtain ⟨⟨reached, hplaced⟩, hoperand⟩ := placed_of_lsdaField hlsda hlimit hroom hfits
  rw [← hspan] at hoperand
  refine ⟨head, ⟨[], some ⟨span₃.pos, dataEnd⟩, _⟩, ⟨span₃.pos, dataEnd⟩, hhead, ?_, rfl, ?_,
    rfl, hoperand⟩
  · rw [← hentry]
    refine Reading.result_eq_ok.mpr ⟨span₄, Reading.bind_eq_ok.mpr ⟨_, _, hstart,
      Reading.bind_eq_ok.mpr ⟨_, _, hrange, ?_⟩⟩⟩
    dsimp only
    rw [if_pos hdata]
    refine Reading.bind_eq_ok.mpr ⟨_, _, hend, Reading.bind_eq_ok.mpr ⟨_, _, rfl,
      Reading.bind_eq_ok.mpr ⟨(lsda, ⟨span₃.pos, span₄.pos⟩), span₄, ?_, rfl⟩⟩⟩
    exact Reading.extent_eq_ok.mpr ⟨hlsda, rfl⟩
  · rw [← hentry]
    exact hplaced.account

end FrameEntry

namespace AugmentationLog

/-- The operands of entries that decode are in the declared data, and no byte is both
an operand's and an instruction's, exactly if the declared length is enough for them. -/
theorem operands_accounted (space : AddressSpace) (bases : Bases) (address : Word) :
    (∀ common, CommonEntry.decode space bases address = .ok common →
      common.hasAugmentation = true →
      ∃ head log data, EntryHead.read space address = .ok head ∧
        (CommonEntry.fieldsLogged head bases).result space head.body = .ok (common, log) ∧
        log.data = some data ∧ log.Account data common.instructions head.stop) ∧
    ∀ entry common, FrameEntry.decode space bases address = .ok (entry, common) →
      common.hasAugmentation = true →
      ∃ head log data, EntryHead.read space address = .ok head ∧
        (FrameEntry.fieldsLogged head common bases).result space head.body =
          .ok (entry, log) ∧
        log.data = some data ∧ log.Account data entry.instructions head.stop ∧
        log.early = [] ∧ ∀ operand ∈ log.late, ∀ encoding ∈
          [common.lsdaEncoding.valueOnly, common.lsdaEncoding], ∀ target span,
            Reading.encodedPointer encoding bases space ⟨data.pos, head.stop⟩ =
              .ok target span → operand = ⟨data.pos, span.pos⟩ :=
  ⟨fun _ => CommonEntry.account_of_decode, fun _ _ => FrameEntry.account_of_decode⟩

/-- A common entry with two operands, and a frame entry with the address of language
data, which declare so many bytes of augmentation data. They have two and four. -/
def operandMemory (common entry : UInt8) : Snapshot where
  endian := .little
  regions := [⟨0x100018, [0x14, 0, 0, 0, 0, 0, 0, 0, 1, 0x7a, 0x4c, 0x52, 0, 1, 0x78, 0x10,
      common, 3, 3, 0x0c, 7, 8, 0x90, 1]⟩,
    ⟨0x100030, [0x14, 0, 0, 0, 0x1c, 0, 0, 0, 0, 0x40, 0, 0, 0, 1, 0, 0, entry, 0, 0x50, 0, 0,
      0x41, 0x0e, 0x10]⟩]

def operandCommon (instructions : Span) : CommonEntry where
  address := 0x100018
  length := 24
  version := 1
  codeFactor := 1
  dataFactor := -8
  returnAddress := 16
  instructions
  pointerEncoding := ⟨3⟩
  lsdaEncoding := ⟨3⟩
  personality := none
  hasAugmentation := true
  isSignalFrame := false
  signedWithBKey := false
  taggedMemory := false

def operandEntry (instructions : Span) : FrameEntry where
  address := 0x100030
  length := 24
  common := 0x100018
  pcStart := 0x4000
  pcEnd := 0x4100
  lsda := some 0x5000
  instructions

theorem operands_accounted_enough :
    CommonEntry.decode (operandMemory 2 4).space .unknown 0x100018 =
        .ok (operandCommon ⟨0x10002b, 0x100030⟩) ∧
      FrameEntry.decode (operandMemory 2 4).space .unknown 0x100030 =
        .ok (operandEntry ⟨0x100045, 0x100048⟩, operandCommon ⟨0x10002b, 0x100030⟩) ∧
      (∃ head log data, EntryHead.read (operandMemory 2 4).space 0x100018 = .ok head ∧
        (CommonEntry.fieldsLogged head .unknown).result (operandMemory 2 4).space head.body =
          .ok (operandCommon ⟨0x10002b, 0x100030⟩, log) ∧ log.data = some data ∧
        log.Account data ⟨0x10002b, 0x100030⟩ head.stop) ∧
      ∃ head log data, EntryHead.read (operandMemory 2 4).space 0x100030 = .ok head ∧
        (FrameEntry.fieldsLogged head (operandCommon ⟨0x10002b, 0x100030⟩) .unknown).result
          (operandMemory 2 4).space head.body =
            .ok (operandEntry ⟨0x100045, 0x100048⟩, log) ∧ log.data = some data ∧
        log.Account data ⟨0x100045, 0x100048⟩ head.stop := by
  have hcommon : CommonEntry.decode (operandMemory 2 4).space .unknown 0x100018 =
      .ok (operandCommon ⟨0x10002b, 0x100030⟩) := by decide +kernel
  have hentry : FrameEntry.decode (operandMemory 2 4).space .unknown 0x100030 =
      .ok (operandEntry ⟨0x100045, 0x100048⟩, operandCommon ⟨0x10002b, 0x100030⟩) := by
    decide +kernel
  refine ⟨hcommon, hentry, (operands_accounted _ _ _).1 _ hcommon rfl, ?_⟩
  obtain ⟨head, log, data, hhead, hlogged, hdata, haccount, -⟩ :=
    (operands_accounted _ _ _).2 _ _ hentry rfl
  exact ⟨head, log, data, hhead, hlogged, hdata, haccount⟩

/-- Entries that declare no data at all are decoded to the same fields, out of bytes
that are their instructions. -/
theorem operands_in_instructions :
    (∃ head log operand, CommonEntry.decode (operandMemory 0 4).space .unknown 0x100018 =
        .ok (operandCommon ⟨0x100029, 0x100030⟩) ∧
      EntryHead.read (operandMemory 0 4).space 0x100018 = .ok head ∧
      (CommonEntry.fieldsLogged head .unknown).result (operandMemory 0 4).space head.body =
        .ok (operandCommon ⟨0x100029, 0x100030⟩, log) ∧
      log.data = some ⟨0x100029, 0x100029⟩ ∧ log.required = 2 ∧
      operand ∈ log.operands ∧ ¬ operand.Inside ⟨0x100029, 0x100029⟩ ∧
      operand.Has 0x10002a ∧ Span.Has ⟨0x100029, 0x100030⟩ 0x10002a) ∧
    ∃ head log operand, FrameEntry.decode (operandMemory 2 0).space .unknown 0x100030 =
        .ok (operandEntry ⟨0x100041, 0x100048⟩, operandCommon ⟨0x10002b, 0x100030⟩) ∧
      EntryHead.read (operandMemory 2 0).space 0x100030 = .ok head ∧
      (FrameEntry.fieldsLogged head (operandCommon ⟨0x10002b, 0x100030⟩) .unknown).result
        (operandMemory 2 0).space head.body = .ok (operandEntry ⟨0x100041, 0x100048⟩, log) ∧
      log.data = some ⟨0x100041, 0x100041⟩ ∧ log.required = 4 ∧
      operand ∈ log.operands ∧ ¬ operand.Inside ⟨0x100041, 0x100041⟩ ∧
      operand.Has 0x100041 ∧ Span.Has ⟨0x100041, 0x100048⟩ 0x100041 := by
  refine ⟨⟨⟨0x100018, 0x10001c, 0, 0x100030⟩,
    ⟨[], some ⟨0x100029, 0x100029⟩, [⟨0x100029, 0x10002a⟩, ⟨0x10002a, 0x10002b⟩]⟩,
    ⟨0x10002a, 0x10002b⟩, ?_⟩, ⟨0x100030, 0x100034, 0x1c, 0x100048⟩,
    ⟨[], some ⟨0x100041, 0x100041⟩, [⟨0x100041, 0x100045⟩]⟩, ⟨0x100041, 0x100045⟩, ?_⟩
  · decide +kernel
  · decide +kernel

end AugmentationLog

end Unwinding
