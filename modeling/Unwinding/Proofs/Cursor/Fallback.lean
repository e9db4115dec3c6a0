import Unwinding.Proofs.Cursor.Located
import Unwinding.Proofs.Lookup.Agreement

/-!
# Where the table cannot be searched

The rows of a lookup table can be asked for by number only if their values have
one size and are not indirect. Where they are not, the section itself is
scanned, and the frame that a cursor finds is that of the entry that the scan
finds. A table whose count or whose values are left out reads as a table of no
rows, though, and in a table of no rows the search ends before it could see
that there is nothing to search. Such a table hides the whole section.
-/

namespace Unwinding

variable {arch : Arch} {program : Program} {sections : UnwindSections} {pc : Word}

namespace LookupTable

variable {table : LookupTable} {space : AddressSpace} {address : Word}

/-- The header leaves out the count, or the rows. -/
def Omitted (table : LookupTable) (space : AddressSpace) : Prop :=
  space.get8 (table.address + 2) = .ok Encoding.absent.byte ∨ table.encoding.isAbsent = true

/-- The rows cannot be asked for by number: they are left out, or their values
have no one size, or are indirect. -/
def Unsearchable (table : LookupTable) (space : AddressSpace) : Prop :=
  table.Omitted space ∨ table.encoding.size = none ∨ table.encoding.isIndirect = true

/-- The rest of the header, once its encodings are known. -/
def counted (address : Word) (framesEncoding countEncoding encoding : Encoding) :
    Reading CfiError LookupTable := do
  let frames ← Reading.encodedPointer framesEncoding (bases address)
  if countEncoding.isAbsent ∨ encoding.isAbsent then
    return { address, frames, count := 0, encoding, entries := ← Reading.pos }
  else
    let count ← Reading.encodedPointer countEncoding (bases address)
    return { address, frames, count, encoding, entries := ← Reading.pos }

theorem reading_eq (address : Word) :
    reading address = (do
      let version ← Reading.u8
      if version ≠ 1 then throw (.unsupportedHeaderVersion version)
      else
        let framesEncoding ← Reading.u8
        let countEncoding ← Reading.u8
        let encoding ← Reading.u8
        counted address ⟨framesEncoding⟩ ⟨countEncoding⟩ ⟨encoding⟩) := by
  funext space span
  rfl

theorem counted_ok {framesEncoding countEncoding encoding : Encoding} {span span' : Span}
    (h : counted address framesEncoding countEncoding encoding space span = .ok table span') :
    table.address = address ∧ table.encoding = encoding ∧
      (countEncoding.isAbsent = true ∨ encoding.isAbsent = true → table.count = 0) := by
  unfold counted at h
  obtain ⟨frames, middle, -, h⟩ := Reading.bind_eq_ok.mp h
  by_cases habsent : countEncoding.isAbsent = true ∨ encoding.isAbsent = true
  · rw [if_pos habsent] at h
    obtain ⟨entries, _, -, h⟩ := Reading.bind_eq_ok.mp h
    obtain ⟨rfl, -⟩ := Reading.pure_eq_ok.mp h
    exact ⟨rfl, rfl, fun _ => rfl⟩
  · rw [if_neg habsent] at h
    obtain ⟨count, _, -, h⟩ := Reading.bind_eq_ok.mp h
    obtain ⟨entries, _, -, h⟩ := Reading.bind_eq_ok.mp h
    obtain ⟨rfl, -⟩ := Reading.pure_eq_ok.mp h
    exact ⟨rfl, rfl, fun habsent' => absurd habsent' habsent⟩

theorem count_of_omitted (h : read space address = .ok table) (homitted : table.Omitted space) :
    table.count = 0 := by
  obtain ⟨span', h⟩ := Reading.result_eq_ok.mp h
  rw [reading_eq] at h
  obtain ⟨version, span₁, hversion, h⟩ := Reading.bind_eq_ok.mp h
  obtain ⟨-, -, rfl⟩ := Reading.u8_eq_ok.mp (Reading.liftM_eq_ok.mp hversion)
  by_cases hunsupported : version ≠ 1
  · rw [if_pos hunsupported] at h
    exact (Reading.throw_eq_ok.mp h).elim
  rw [if_neg hunsupported] at h
  obtain ⟨framesEncoding, span₂, hframes, h⟩ := Reading.bind_eq_ok.mp h
  obtain ⟨-, -, rfl⟩ := Reading.u8_eq_ok.mp (Reading.liftM_eq_ok.mp hframes)
  obtain ⟨countEncoding, span₃, hcount, h⟩ := Reading.bind_eq_ok.mp h
  obtain ⟨-, hstored, -⟩ := Reading.u8_eq_ok.mp (Reading.liftM_eq_ok.mp hcount)
  obtain ⟨encoding, span₄, -, h⟩ := Reading.bind_eq_ok.mp h
  obtain ⟨haddress, hencoding, hnone⟩ := counted_ok h
  unfold Omitted at homitted
  rw [haddress, hencoding] at homitted
  refine hnone (homitted.imp_left fun hleft => ?_)
  have hplace : (Span.unbounded address).pos + 1 + 1 = address + 2 := UInt64.add_assoc address 1 1
  rw [hplace, hleft] at hstored
  obtain rfl := Except.ok.inj hstored
  rfl

theorem valueSize_of_unsearchable (h : table.Unsearchable space)
    (hread : read space address = .ok table) (hcount : table.count ≠ 0) :
    table.valueSize = .error (.unsearchableTable table.encoding) := by
  unfold valueSize
  rcases h with homitted | hsize | hindirect
  · exact absurd (count_of_omitted hread homitted) hcount
  · rw [hsize]
  · rw [hindirect]
    cases table.encoding.size <;> rfl

theorem find_of_unsearchable (h : table.Unsearchable space)
    (hread : read space address = .ok table) (bases : Bases) (pc : Word) :
    table.find space bases pc =
      if table.count = 0 then .ok none else .error (.unsearchableTable table.encoding) := by
  unfold find
  by_cases hcount : table.count = 0
  · rw [search_of_no_rows hcount, if_pos hcount]
    rfl
  · unfold search
    rw [if_neg hcount, if_neg hcount, valueSize_of_unsearchable h hread hcount]
    rfl

end LookupTable

/-- What the unwinder knows of an object whose table cannot be searched. -/
structure UnwindSections.Untabled (sections : UnwindSections) (space : AddressSpace)
    (table : LookupTable) : Prop where
  compact : sections.compact = none
  header : ∃ address, sections.table = some address ∧ LookupTable.read space address = .ok table
  unsearchable : table.Unsearchable space

theorem UnwindSections.Untabled.count_of_omitted {space : AddressSpace} {table : LookupTable}
    (h : sections.Untabled space table) (homitted : table.Omitted space) : table.count = 0 := by
  obtain ⟨address, -, hread⟩ := h.header
  exact LookupTable.count_of_omitted hread homitted

/-- The section of the object is that which the header names. Its length is
known only if the object has one to tell. -/
def UnwindSections.scan (sections : UnwindSections) (space : AddressSpace) (table : LookupTable)
    (pc : Word) : Except CfiError (Option FrameEntry) :=
  FrameSection.scan space sections.bases table.frames (sections.frames.map (·.2)) pc

namespace Program

variable {table : LookupTable} {found : Option FrameEntry}

theorem findEntry_of_untabled (h : sections.Untabled program.space table)
    (hscan : sections.scan program.space table pc = .ok found) :
    program.findEntry sections pc = .ok (if table.count = 0 then none else found) := by
  obtain ⟨address, haddress, hread⟩ := h.header
  have hfind := LookupTable.find_of_unsearchable h.unsearchable hread sections.bases pc
  unfold findEntry
  rw [haddress]
  refine Outcome.bind_eq_ok.mpr ⟨table, hread, ?_⟩
  rw [hfind]
  by_cases hcount : table.count = 0
  · rw [if_pos hcount, if_pos hcount]
  · rw [if_neg hcount, if_neg hcount]
    exact hscan

theorem locate_of_untabled (hsections : program.sections pc = some sections)
    (h : sections.Untabled program.space table)
    (hscan : sections.scan program.space table pc = .ok found) :
    program.locate arch pc =
      match if table.count = 0 then none else found with
      | none => .ok none
      | some entry => (program.entryFrame arch sections.bases entry.address pc).map some := by
  have hfind := findEntry_of_untabled h hscan
  generalize (if table.count = 0 then none else found) = result at hfind ⊢
  unfold locate
  rw [hsections]
  simp only [h.compact]
  unfold tableFrame
  rw [hfind]
  cases result with
  | none => rfl
  | some entry => exact Outcome.bind_pure_eq_map _ _

end Program

namespace Cursor

variable {table : LookupTable} {cursor : Cursor arch} {found : Option FrameEntry}

/-- What a cursor finds in an object whose table cannot be searched, where the
scan of its section answers `found`. -/
structure FindsScanned (program : Program) (cursor : Cursor arch) (sections : UnwindSections)
    (table : LookupTable) (found : Option FrameEntry) : Prop where
  /-- There is no frame at address zero, and none in a section that is hidden
  by a table of no rows. -/
  missing : (procInfo.outcome program cursor).1 = .ok none ↔
    cursor.file.ip = 0 ∨ table.count = 0 ∨ found = none
  hidden : table.Omitted program.space → table.count = 0
  ended : (procInfo.outcome program cursor).1 = .ok none →
    (step.outcome program cursor).1 = .ok .endOfStack
  /-- Only the rules of the entry decide whether the frame can be read. -/
  read : ∀ entry, found = some entry → cursor.file.ip ≠ 0 → table.count ≠ 0 →
    (procInfo.outcome program cursor).1 =
      (program.entryFrame arch sections.bases entry.address cursor.lookupPc).map
        fun frame => some frame.info
  named : ∀ info, (procInfo.outcome program cursor).1 = .ok (some info) →
    ∃ entry, found = some entry ∧ info.startIp = entry.pcStart ∧ info.endIp = entry.pcEnd ∧
      info.location = .entry entry.address sections.bases

theorem FindsScanned.of_missing (hreach : cursor.Reachable program)
    (huntabled : sections.Untabled program.space table)
    (hmissing : cursor.file.ip = 0 ∨ table.count = 0 ∨ found = none)
    (hframe : cursor.position.frame program = .ok none) :
    FindsScanned program cursor sections table found := by
  have hat := hreach.stands
  have hinfo : (procInfo.outcome program cursor).1 = .ok none := by
    rw [procInfo_outcome hat.knows, Position.procInfo_eq, hframe]
    rfl
  refine ⟨iff_of_true hinfo hmissing, huntabled.count_of_omitted, fun _ => ?_, ?_, ?_⟩
  · rw [hat.step.1, Position.step_of_no_frame hframe]
  · rintro entry rfl hip hcount
    rcases hmissing with hzero | hzero | hnone
    · exact absurd hzero hip
    · exact absurd hzero hcount
    · cases hnone
  · intro info hsome
    cases hinfo.symm.trans hsome

theorem FindsScanned.of_entry (hreach : cursor.Reachable program)
    (huntabled : sections.Untabled program.space table) (hip : cursor.file.ip ≠ 0)
    (hcount : table.count ≠ 0) {entry : FrameEntry}
    (hframe : cursor.position.frame program =
      (program.entryFrame arch sections.bases entry.address cursor.lookupPc).map some)
    (hdecode : ∃ common, FrameEntry.decode program.space sections.bases entry.address =
      .ok (entry, common)) :
    FindsScanned program cursor sections table (some entry) := by
  have hat := hreach.stands
  have hinfo : (procInfo.outcome program cursor).1 =
      (program.entryFrame arch sections.bases entry.address cursor.lookupPc).map
        fun frame => some frame.info := by
    rw [procInfo_outcome hat.knows, Position.procInfo_eq, hframe]
    cases program.entryFrame arch sections.bases entry.address cursor.lookupPc <;> rfl
  have hsome : (procInfo.outcome program cursor).1 ≠ .ok none := by
    rw [hinfo]
    intro hnone
    obtain ⟨frame, -, hframe⟩ := Outcome.map_eq_ok.mp hnone
    cases hframe
  refine ⟨iff_of_false hsome ?_, huntabled.count_of_omitted, fun hnone => absurd hnone hsome,
    ?_, ?_⟩
  · rintro (hzero | hzero | hnone)
    · exact hip hzero
    · exact hcount hzero
    · cases hnone
  · intro entry' hentry' _ _
    cases hentry'
    exact hinfo
  · intro info hfound
    rw [hinfo] at hfound
    obtain ⟨frame, hframe', hframe⟩ := Outcome.map_eq_ok.mp hfound
    cases hframe
    obtain ⟨row, entry', common', hrow, rfl⟩ := Program.entryFrame_eq_ok.mp hframe'
    obtain ⟨common, hdecode⟩ := hdecode
    have hdecode' := FrameEntry.decode_within sections.bases.within_of_no_function
      (FrameEntry.rowAt_eq_ok.mp hrow).1
    cases hdecode.symm.trans hdecode'
    exact ⟨entry, rfl, rfl, rfl, rfl⟩

/-- Where the table cannot be searched, the cursor finds the entry that the scan
of the section finds, or nothing where it finds nothing. Only a table of no rows
makes the cursor pass over an entry. -/
theorem finds_scanned (hreach : cursor.Reachable program)
    (hsections : program.sections cursor.lookupPc = some sections)
    (huntabled : sections.Untabled program.space table) {entries : List FrameEntry}
    (holds : FrameSection.Holds program.space sections.bases
      (FrameSection.stopOf table.frames (sections.frames.map (·.2))) table.frames entries) :
    sections.scan program.space table cursor.lookupPc =
        .ok (entries.find? (·.covers cursor.lookupPc)) ∧
      FindsScanned program cursor sections table
        (entries.find? (·.covers cursor.lookupPc)) := by
  have hscan : sections.scan program.space table cursor.lookupPc = _ :=
    FrameSection.scan_eq holds cursor.lookupPc
  refine ⟨hscan, ?_⟩
  have hlocate : program.locate arch cursor.lookupPc = _ :=
    Program.locate_of_untabled hsections huntabled hscan
  by_cases hip : cursor.file.ip = 0
  · exact .of_missing hreach huntabled (.inl hip) (if_pos hip)
  have hframe : cursor.position.frame program = program.locate arch cursor.lookupPc := if_neg hip
  rw [← hframe] at hlocate
  by_cases hcount : table.count = 0
  · rw [if_pos hcount] at hlocate
    exact .of_missing hreach huntabled (.inr (.inl hcount)) hlocate
  rw [if_neg hcount] at hlocate
  cases hfound : entries.find? (·.covers cursor.lookupPc) with
  | none =>
    rw [hfound] at hlocate
    exact .of_missing hreach huntabled (.inr (.inr rfl)) hlocate
  | some entry =>
    rw [hfound] at hlocate
    exact .of_entry hreach huntabled hip hcount hlocate
      (holds.decode (List.mem_of_find?_eq_some hfound))

/-- A section with one function, behind a header that ends with `rest`. -/
def untabledMemory (rest : List UInt8) : Snapshot where
  endian := .little
  regions := [
    ⟨0x100000, [0x14, 0, 0, 0, 0, 0, 0, 0, 1, 0x7a, 0x52, 0, 1, 0x78, 0x10, 1, 0x1b, 0x0c, 7, 8,
      0x90, 1, 0, 0, 0x14, 0, 0, 0, 0x1c, 0, 0, 0, 0xe0, 0x0f, 0x10, 0, 0, 1, 0, 0, 0, 0, 0, 0, 0,
      0, 0, 0, 0, 0, 0, 0, 0, 0, 0, 0]⟩,
    ⟨0x1f0000, 1 :: 0x1b :: rest⟩]

def untabledSections : UnwindSections := ⟨some 0x1f0000, some (0x100000, 0x38), none, .unknown⟩

def untabledProgram (rest : List UInt8) : Program :=
  .ofObjects (untabledMemory rest).space [⟨0x200000, 0x202000, untabledSections⟩]

def untabledEntry : FrameEntry :=
  ⟨0x100018, 0x18, 0x100000, 0x201000, 0x201100, none, ⟨0x100029, 0x100030⟩⟩

def untabledInfo : ProcInfo where
  startIp := 0x201000
  endIp := 0x201100
  lsda := none
  personality := none
  argsSize := 0
  signalFrame := false
  location := .entry 0x100018 .unknown

/-- A header that lists one row of variable size. -/
def unevenHeader : List UInt8 := [3, 0x31, 0xfc, 0xff, 0xf0, 0xff, 1, 0, 0, 0]

def unevenTable : LookupTable := ⟨0x1f0000, 0x100000, 1, ⟨0x31⟩, 0x1f000c⟩

/-- A header that leaves the count and the rows out. -/
def omittedHeader : List UInt8 := [0xff, 0xff, 0xfc, 0xff, 0xf0, 0xff]

def omittedTable : LookupTable := ⟨0x1f0000, 0x100000, 0, .absent, 0x1f0008⟩

def untabledCommon : CommonEntry :=
  { LookupTable.threeCommon with address := 0x100000, instructions := ⟨0x100011, 0x100018⟩ }

theorem untabledEntry_holds {rest : List UInt8} (hrest : rest ∈ [unevenHeader, omittedHeader]) :
    FrameSection.Holds (untabledMemory rest).space .unknown
      (FrameSection.stopOf 0x100000 (some 0x38)) 0x100000 [untabledEntry] := by
  have hcommon : ∀ rest ∈ [unevenHeader, omittedHeader],
      EntryHead.read (untabledMemory rest).space 0x100000 =
          .ok ⟨0x100000, 0x100004, 0, 0x100018⟩ ∧
        CommonEntry.decode (untabledMemory rest).space .unknown 0x100000 = .ok untabledCommon := by
    decide +kernel
  have hframe : ∀ rest ∈ [unevenHeader, omittedHeader],
      EntryHead.read (untabledMemory rest).space 0x100018 =
          .ok ⟨0x100018, 0x10001c, 0x1c, 0x100030⟩ ∧
        FrameEntry.decode (untabledMemory rest).space .unknown 0x100018 =
          .ok (untabledEntry, untabledCommon) := by
    decide +kernel
  have hend : ∀ rest ∈ [unevenHeader, omittedHeader],
      EntryHead.read (untabledMemory rest).space 0x100030 = .error (.terminator 0x100030) := by
    decide +kernel
  refine .common (by decide) (hcommon rest hrest).1 (hcommon rest hrest).2 ?_
  exact .frame (by decide) (hframe rest hrest).1 (hframe rest hrest).2
    (.terminator (hend rest hrest))

theorem uneven_untabled :
    untabledSections.Untabled (untabledProgram unevenHeader).space unevenTable := by
  have hread : LookupTable.read (untabledProgram unevenHeader).space 0x1f0000 =
      .ok unevenTable := by
    decide +kernel
  exact ⟨rfl, ⟨_, rfl, hread⟩, .inr (.inl (by decide))⟩

theorem omitted_untabled :
    untabledSections.Untabled (untabledProgram omittedHeader).space omittedTable := by
  have hread : LookupTable.read (untabledProgram omittedHeader).space 0x1f0000 =
      .ok omittedTable := by
    decide +kernel
  exact ⟨rfl, ⟨_, rfl, hread⟩, .inl (.inr (by decide))⟩

/-- A row of variable size sends the cursor to the section. -/
theorem finds_scanned_uneven :
    ∃ cursor : Cursor .x86_64, cursor.Reachable (untabledProgram unevenHeader) ∧
      untabledSections.scan (untabledProgram unevenHeader).space unevenTable cursor.lookupPc =
        .ok (some untabledEntry) ∧
      FindsScanned (untabledProgram unevenHeader) cursor untabledSections unevenTable
        (some untabledEntry) ∧
      (procInfo.outcome (untabledProgram unevenHeader) cursor).1 = .ok (some untabledInfo) := by
  have hreach : (start (deferringFile 0x201080)).Reachable (untabledProgram unevenHeader) :=
    ⟨_, [], rfl⟩
  have hsections : (untabledProgram unevenHeader).sections 0x201080 = some untabledSections := by
    decide +kernel
  have hfinds := finds_scanned hreach hsections uneven_untabled
    (untabledEntry_holds (by decide))
  have hinfo : (procInfo.outcome (untabledProgram unevenHeader)
      (start (deferringFile 0x201080))).1 = .ok (some untabledInfo) := by
    decide +kernel
  exact ⟨_, hreach, hfinds.1, hfinds.2, hinfo⟩

/-- With the count and the rows left out, a function that the scan finds looks
like the end of the stack. -/
theorem missed_omitted :
    (start (deferringFile 0x201080)).Reachable (untabledProgram omittedHeader) ∧
      (untabledProgram omittedHeader).sections 0x201080 = some untabledSections ∧
      untabledSections.Untabled (untabledProgram omittedHeader).space omittedTable ∧
      FrameSection.Holds (untabledProgram omittedHeader).space .unknown
        (FrameSection.stopOf 0x100000 (some 0x38)) 0x100000 [untabledEntry] ∧
      untabledSections.scan (untabledProgram omittedHeader).space omittedTable 0x201080 =
        .ok (some untabledEntry) ∧
      (procInfo.outcome (untabledProgram omittedHeader) (start (deferringFile 0x201080))).1 =
        .ok none ∧
      (step.outcome (untabledProgram omittedHeader) (start (deferringFile 0x201080))).1 =
        .ok .endOfStack := by
  have hscan : untabledSections.scan (untabledProgram omittedHeader).space omittedTable 0x201080 =
      .ok (some untabledEntry) := by
    decide +kernel
  have hsections : (untabledProgram omittedHeader).sections 0x201080 = some untabledSections := by
    decide +kernel
  have hinfo : (procInfo.outcome (untabledProgram omittedHeader)
      (start (deferringFile 0x201080))).1 = .ok none := by
    decide +kernel
  have hstep : (step.outcome (untabledProgram omittedHeader)
      (start (deferringFile 0x201080))).1 = .ok .endOfStack := by
    decide +kernel
  exact ⟨⟨_, [], rfl⟩, hsections, omitted_untabled, untabledEntry_holds (by decide), hscan, hinfo,
    hstep⟩

end Cursor

end Unwinding
