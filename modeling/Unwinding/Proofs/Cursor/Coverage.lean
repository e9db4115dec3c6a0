import Unwinding.Proofs.Cursor.Located
import Unwinding.Proofs.Lookup.Found

/-!
# The function of a frame covers its address

A frame entry is taken from the table or from the section only if it covers
the address, and so is a compact entry from its index. A frame entry that a
compact one defers to is taken as it is. So the function that a cursor names
covers the address, except where the compact index defers to the frame entry
of other code, or where it describes a function that reaches to the end of the
address space, so that the end of the function is no address.
-/

namespace Unwinding

variable {arch : Arch} {program : Program} {sections : UnwindSections} {pc : Word}

namespace Program

/-- The compact index defers for `pc` to the frame entry of other code. -/
def Strays (program : Program) (arch : Arch) (pc : Word) : Prop :=
  ∃ sections packed address entry common, program.sections pc = some sections ∧
    program.DefersTo arch sections pc packed address ∧
    FrameEntry.decode program.space { sections.bases with function := none } address =
      .ok (entry, common) ∧
    entry.covers pc = false

/-- The compact index has the rules for `pc`, of a function whose end was cut off. -/
def Wraps (program : Program) (arch : Arch) (pc : Word) : Prop :=
  ∃ sections index packed row, program.sections pc = some sections ∧
    sections.compact = some index ∧ index.find program.space pc = .ok (some packed) ∧
    packed.encoding.decode arch program.space packed.startIp = .ok (.row row) ∧
    packed.endIp < packed.startIp

theorem DefersTo.unique {entry entry' : CompactEntry} {address address' : Word}
    (h : program.DefersTo arch sections pc entry address)
    (h' : program.DefersTo arch sections pc entry' address') : address = address' := by
  obtain ⟨hindex, hentry, hrules, hstart⟩ := h
  obtain ⟨hindex', hentry', hrules', hstart'⟩ := h'
  cases hindex.symm.trans hindex'
  cases hentry.symm.trans hentry'
  cases hrules.symm.trans hrules'
  cases hstart.symm.trans hstart'
  rfl

theorem not_strays_of_not_defers (hsections : program.sections pc = some sections)
    (h : ∀ entry address, ¬ program.DefersTo arch sections pc entry address) :
    ¬ program.Strays arch pc := by
  rintro ⟨sections', packed, address, entry, common, hsections', hdefers, -, -⟩
  cases hsections.symm.trans hsections'
  exact h packed address hdefers

theorem covers_of_listed {entry : FrameEntry} {frame : Frame}
    (hentry : entry.FoundFor program.space sections.bases pc)
    (hframe : program.entryFrame arch sections.bases entry.address pc = .ok frame) :
    frame.info.startIp ≤ pc ∧ pc < frame.info.endIp := by
  obtain ⟨hcovers, common, hdecode⟩ := hentry
  obtain ⟨row, entry', common', hrow, rfl⟩ := entryFrame_eq_ok.mp hframe
  have hdecode' := FrameEntry.decode_within sections.bases.within_of_no_function
    (FrameEntry.rowAt_eq_ok.mp hrow).1
  cases hdecode.symm.trans hdecode'
  exact FrameEntry.covers_iff.mp hcovers

theorem covers_iff_of_deferred {packed : CompactEntry} {address : Word} {frame : Frame}
    (hsections : program.sections pc = some sections)
    (hdefers : program.DefersTo arch sections pc packed address)
    (hframe : program.entryFrame arch sections.bases address pc = .ok frame) :
    (frame.info.startIp ≤ pc ∧ pc < frame.info.endIp) ↔ ¬ program.Strays arch pc := by
  obtain ⟨row, entry, common, hrow, rfl⟩ := entryFrame_eq_ok.mp hframe
  have hdecode := (FrameEntry.rowAt_eq_ok.mp hrow).1
  constructor
  · rintro hcovers ⟨sections', _, address', entry', common', hsections', hdefers', hdecode', hother⟩
    cases hsections.symm.trans hsections'
    cases hdefers.unique hdefers'
    cases hdecode.symm.trans hdecode'
    have hcovered := FrameEntry.covers_iff.mpr hcovers
    rw [hcovered] at hother
    cases hother
  · intro hstays
    cases hcovers : entry.covers pc with
    | true => exact FrameEntry.covers_iff.mp hcovers
    | false =>
      exact absurd ⟨sections, packed, address, entry, common, hsections, hdefers, hdecode, hcovers⟩
        hstays

theorem Found.covers_iff {frame : Frame} (hsections : program.sections pc = some sections)
    (h : program.Found arch sections pc frame) :
    (frame.info.startIp ≤ pc ∧ pc < frame.info.endIp) ↔
      ¬ program.Strays arch pc ∧ ¬ program.Wraps arch pc := by
  cases h with
  | listed hcompact hentry hframe =>
    refine iff_of_true (covers_of_listed (foundFor_of_findEntry hentry) hframe) ⟨?_, ?_⟩
    · refine not_strays_of_not_defers hsections fun _ _ hdefers => ?_
      obtain ⟨hindex, hfound, -, -⟩ := hdefers
      cases (hcompact _ hindex).symm.trans hfound
    · rintro ⟨sections', index, packed, row, hsections', hindex, hfound, -, -⟩
      cases hsections.symm.trans hsections'
      cases (hcompact _ hindex).symm.trans hfound
  | @packed index entry row hindex hentry hrow =>
    have hstays : ¬ program.Strays arch pc := by
      refine not_strays_of_not_defers hsections fun _ _ hdefers => ?_
      obtain ⟨hindex', hentry', hrules, -⟩ := hdefers
      cases hindex.symm.trans hindex'
      cases hentry.symm.trans hentry'
      cases hrow.symm.trans hrules
    have hwraps : program.Wraps arch pc ↔ entry.endIp < entry.startIp := by
      constructor
      · rintro ⟨sections', index', entry', row', hsections', hindex', hentry', -, hcut⟩
        cases hsections.symm.trans hsections'
        cases hindex.symm.trans hindex'
        cases hentry.symm.trans hentry'
        exact hcut
      · exact fun hcut => ⟨sections, index, entry, row, hsections, hindex, hentry, hrow, hcut⟩
    rw [hwraps, and_iff_right hstays]
    exact CompactIndex.covers_iff_of_find hentry
  | deferred hdefers hframe =>
    have hfits : ¬ program.Wraps arch pc := by
      rintro ⟨sections', index, entry, row, hsections', hindex, hentry, hrow, -⟩
      obtain ⟨hindex', hentry', hrules, -⟩ := hdefers
      cases hsections.symm.trans hsections'
      cases hindex.symm.trans hindex'
      cases hentry.symm.trans hentry'
      cases hrow.symm.trans hrules
    rw [and_iff_left hfits]
    have hiff := covers_iff_of_deferred hsections hdefers hframe
    exact hiff

end Program

namespace Cursor

variable {cursor : Cursor arch}

/-- The function that a cursor names covers the address that it was looked up for,
unless the compact index led to other code or described a function whose end is no
address. -/
theorem covers_iff_not_strays (hreach : cursor.Reachable program) {info : ProcInfo}
    (hinfo : (procInfo.outcome program cursor).1 = .ok (some info)) :
    (info.startIp ≤ cursor.lookupPc ∧ cursor.lookupPc < info.endIp) ↔
      ¬ program.Strays arch cursor.lookupPc ∧ ¬ program.Wraps arch cursor.lookupPc := by
  obtain ⟨frame, hframe, rfl⟩ := hreach.stands.frame_of_procInfo hinfo
  obtain ⟨sections, hsections, hfound⟩ :=
    Program.found_of_locate (Position.locate_of_frame hframe)
  exact hfound.covers_iff hsections

/-- In the first bytes of the function its frame entry covers the address. -/
theorem covers_iff_not_strays_deferring :
    ∃ cursor : Cursor .x86_64, cursor.Reachable deferringProgram ∧
      (procInfo.outcome deferringProgram cursor).1 = .ok (some deferringInfo) ∧
      ((deferringInfo.startIp ≤ cursor.lookupPc ∧ cursor.lookupPc < deferringInfo.endIp) ↔
        ¬ deferringProgram.Strays .x86_64 cursor.lookupPc ∧
          ¬ deferringProgram.Wraps .x86_64 cursor.lookupPc) ∧
      deferringInfo.startIp ≤ cursor.lookupPc ∧ cursor.lookupPc < deferringInfo.endIp := by
  have hreach : (start (deferringFile 0x201080)).Reachable deferringProgram := ⟨_, [], rfl⟩
  have hiff := covers_iff_not_strays hreach procInfo_deferring
  exact ⟨_, hreach, procInfo_deferring, hiff, by decide, by decide⟩

/-- Further on in the function, the cursor names code that ends before the
address. -/
theorem strays_deferring :
    (start (deferringFile 0x201800)).Reachable deferringProgram ∧
      (procInfo.outcome deferringProgram (start (deferringFile 0x201800))).1 =
        .ok (some deferringInfo) ∧
      ¬ (start (deferringFile 0x201800)).lookupPc < deferringInfo.endIp := by
  have hinfo : (procInfo.outcome deferringProgram (start (deferringFile 0x201800))).1 =
      .ok (some deferringInfo) := by
    decide +kernel
  exact ⟨⟨_, [], rfl⟩, hinfo, by decide⟩

end Cursor

end Unwinding
