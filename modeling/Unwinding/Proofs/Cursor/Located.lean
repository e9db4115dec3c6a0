import Unwinding.Memory.Snapshot
import Unwinding.Proofs.CallFrame.Decoding
import Unwinding.Proofs.CallFrame.Table
import Unwinding.Proofs.Compact.Found
import Unwinding.Proofs.Cursor.Reference

/-!
# Leaving a frame by its location

A frame is found by a frame entry, by a compact entry, or by a frame entry that
a compact one defers to. Each way records a location, and the rules read again
from there are those the frame was found with. So a frame can be left without
the cursor that found it, with the same result.
-/

namespace Unwinding

variable {arch : Arch} {program : Program} {pc : Word}

/-- The frame of the function of an entry. -/
def FrameEntry.frame (entry : FrameEntry) (common : CommonEntry) (bases : Bases) (row : Row) :
    Frame where
  info := {
    startIp := entry.pcStart
    endIp := entry.pcEnd
    lsda := entry.lsda
    personality := common.personality
    argsSize := row.argsSize
    signalFrame := row.signalFrame
    location := .entry entry.address bases }
  row

/-- The frame of a function whose rules are packed. -/
def CompactEntry.frame (entry : CompactEntry) (row : Row) : Frame where
  info := {
    startIp := entry.startIp
    endIp := entry.endIp
    lsda := entry.lsda
    personality := entry.personality
    argsSize := 0
    signalFrame := false
    location := .compact entry.encoding entry.startIp }
  row

/-- What the entry adds to a frame that it defers to. -/
def CompactEntry.complete (entry : CompactEntry) (frame : Frame) : Frame :=
  { frame with info := { frame.info with
    personality := frame.info.personality <|> entry.personality
    lsda := frame.info.lsda <|> entry.lsda } }

namespace Program

variable {frame : Frame}

theorem entryFrame_eq_ok {bases : Bases} {address : Word} :
    program.entryFrame arch bases address pc = .ok frame ↔
      ∃ row entry common,
        FrameEntry.rowAt arch program.space bases address pc = .ok (row, entry, common) ∧
          entry.frame common bases row = frame := by
  unfold entryFrame
  rw [Outcome.bind_eq_ok]
  constructor
  · rintro ⟨⟨row, entry, common⟩, hrow, h⟩
    exact ⟨row, entry, common, Outcome.liftM_cfi_eq_ok.mp hrow, Outcome.pure_eq_ok.mp h⟩
  · rintro ⟨row, entry, common, hrow, rfl⟩
    exact ⟨(row, entry, common), Outcome.liftM_cfi_eq_ok.mpr hrow, rfl⟩

/-- The compact entry for `pc` says that the rules are in the frame entry at
this address. -/
inductive DefersTo (program : Program) (arch : Arch) (sections : UnwindSections) (pc : Word) :
    CompactEntry → Word → Prop
  | intro {index : CompactIndex} {entry : CompactEntry} {offset : Nat} {start : Word} :
      sections.compact = some index → index.find program.space pc = .ok (some entry) →
      entry.encoding.decode arch program.space entry.startIp = .ok (.deferred offset) →
      program.frameSection sections = .ok (some start) →
      DefersTo program arch sections pc entry (start + UInt64.ofNat offset)

/-- How the frame that executes at `pc` was found. -/
inductive Found (program : Program) (arch : Arch) (sections : UnwindSections) (pc : Word) :
    Frame → Prop
  /-- By its frame entry, as it has no compact one. -/
  | listed {entry : FrameEntry} {frame : Frame} :
      (∀ index, sections.compact = some index → index.find program.space pc = .ok none) →
      program.findEntry sections pc = .ok (some entry) →
      program.entryFrame arch sections.bases entry.address pc = .ok frame →
      Found program arch sections pc frame
  /-- By its compact entry, which has the rules. -/
  | packed {index : CompactIndex} {entry : CompactEntry} {row : Row} :
      sections.compact = some index → index.find program.space pc = .ok (some entry) →
      entry.encoding.decode arch program.space entry.startIp = .ok (.row row) →
      Found program arch sections pc (entry.frame row)
  /-- By the frame entry that its compact entry defers to. -/
  | deferred {entry : CompactEntry} {address : Word} {frame : Frame} :
      program.DefersTo arch sections pc entry address →
      program.entryFrame arch sections.bases address pc = .ok frame →
      Found program arch sections pc (entry.complete frame)

variable {sections : UnwindSections}

theorem found_of_tableFrame
    (hcompact : ∀ index, sections.compact = some index → index.find program.space pc = .ok none)
    (h : program.tableFrame arch sections pc = .ok (some frame)) :
    program.Found arch sections pc frame := by
  unfold tableFrame at h
  obtain ⟨found, hfind, h⟩ := Outcome.bind_eq_ok.mp h
  cases found with
  | none => cases h
  | some entry =>
    obtain ⟨frame', hframe, h⟩ := Outcome.bind_eq_ok.mp h
    cases h
    exact .listed hcompact (Outcome.liftM_cfi_eq_ok.mp hfind) hframe

theorem found_of_compactFrame {index : CompactIndex} {entry : CompactEntry}
    (hindex : sections.compact = some index)
    (hentry : index.find program.space pc = .ok (some entry))
    (h : program.compactFrame arch sections pc entry = .ok (some frame)) :
    program.Found arch sections pc frame := by
  unfold compactFrame at h
  obtain ⟨rules, hrules, h⟩ := Outcome.bind_eq_ok.mp h
  have hrules := Outcome.liftM_compact_eq_ok.mp hrules
  cases rules with
  | none => cases h
  | row row =>
    cases h
    exact .packed hindex hentry hrules
  | deferred offset =>
    obtain ⟨start, hstart, h⟩ := Outcome.bind_eq_ok.mp h
    cases start with
    | none => cases h
    | some start =>
      obtain ⟨frame', hframe, h⟩ := Outcome.bind_eq_ok.mp h
      cases h
      have hstart := Outcome.liftM_cfi_eq_ok.mp hstart
      exact .deferred (.intro hindex hentry hrules hstart) hframe

theorem found_of_locate (h : program.locate arch pc = .ok (some frame)) :
    ∃ sections, program.sections pc = some sections ∧ program.Found arch sections pc frame := by
  unfold locate at h
  cases hsections : program.sections pc with
  | none =>
    rw [hsections] at h
    cases h
  | some sections =>
    rw [hsections] at h
    refine ⟨sections, rfl, ?_⟩
    cases hindex : sections.compact with
    | none =>
      simp only [hindex] at h
      refine found_of_tableFrame ?_ h
      intro index hsome
      cases hindex.symm.trans hsome
    | some index =>
      simp only [hindex] at h
      obtain ⟨found, hfind, h⟩ := Outcome.bind_eq_ok.mp h
      have hfind := Outcome.liftM_compact_eq_ok.mp hfind
      cases found with
      | none =>
        refine found_of_tableFrame ?_ h
        intro index' hsome
        cases hindex.symm.trans hsome
        exact hfind
      | some entry => exact found_of_compactFrame hindex hfind h

theorem location_of_entryFrame {bases : Bases} {address : Word}
    (h : program.entryFrame arch bases address pc = .ok frame) :
    frame.info.location.row arch program.space pc = .ok frame.row ∧
      frame.info.signalFrame = frame.row.signalFrame := by
  obtain ⟨row, entry, common, hrow, rfl⟩ := entryFrame_eq_ok.mp h
  have haddress := FrameEntry.address_of_decode (FrameEntry.rowAt_eq_ok.mp hrow).1
  refine ⟨?_, rfl⟩
  unfold Location.row
  change (liftM (FrameEntry.rowAt arch program.space bases entry.address pc) >>= _) = _
  rw [haddress, hrow]
  rfl

theorem Found.location (h : program.Found arch sections pc frame) :
    frame.info.location.row arch program.space pc = .ok frame.row ∧
      frame.info.signalFrame = frame.row.signalFrame := by
  cases h with
  | listed _ _ hframe => exact location_of_entryFrame hframe
  | deferred _ hframe =>
    have hlocation := location_of_entryFrame hframe
    exact hlocation
  | @packed index entry row _ _ hrow =>
    refine ⟨?_, (CompactEncoding.signalFrame_decode hrow).symm⟩
    unfold Location.row
    change (liftM (entry.encoding.decode arch program.space entry.startIp) >>= _) = _
    rw [hrow]
    rfl

end Program

namespace Position

variable {position : Position arch} {frame : Frame}

theorem locate_of_frame (h : position.frame program = .ok (some frame)) :
    program.locate arch position.lookupPc = .ok (some frame) := by
  unfold Position.frame at h
  split at h
  · cases h
  · exact h

theorem location_step (h : position.frame program = .ok (some frame)) :
    frame.info.location.step program.space position.lookupPc position.file =
      (frame.row.apply program.space position.file).map fun file =>
        (⟨file, frame.info.signalFrame⟩ : Caller arch) := by
  obtain ⟨sections, -, hfound⟩ := Program.found_of_locate (locate_of_frame h)
  obtain ⟨hrow, hsignal⟩ := hfound.location
  unfold Location.step
  rw [hrow, hsignal]
  exact Outcome.bind_pure_eq_map _ _

end Position

namespace Cursor

variable {cursor : Cursor arch}

/-- A step of the cursor does what leaving the frame by its location does. -/
structure LeavesAlike (program : Program) (cursor : Cursor arch) (info : ProcInfo) : Prop where
  failed : ∀ error, info.location.step program.space cursor.lookupPc cursor.file = .error error ↔
    (step.outcome program cursor).1 = .error error
  left : ∀ caller, info.location.step program.space cursor.lookupPc cursor.file = .ok caller →
    (step.outcome program cursor).1 = .ok (if caller.file.ip = 0 then .endOfStack else .stepped) ∧
      (step.outcome program cursor).2.file = caller.file ∧ caller.signalFrame = info.signalFrame ∧
      (step.outcome program cursor).2.lookupPc =
        if caller.signalFrame then caller.file.ip else caller.file.ip - 1

theorem At.leavesAlike {position : Position arch} {frame : Frame} (h : cursor.At program position)
    (hframe : position.frame program = .ok (some frame)) :
    LeavesAlike program cursor frame.info := by
  obtain ⟨hresult, hnext⟩ := h.step
  have hlocation := Position.location_step hframe
  rw [Position.step_of_frame hframe] at hresult hnext
  rw [← h.stands] at hlocation hresult hnext
  change frame.info.location.step program.space cursor.lookupPc cursor.file =
    (frame.row.apply program.space cursor.file).map _ at hlocation
  rw [position_file] at hresult hnext
  constructor
  · intro error
    rw [hlocation, hresult]
    cases frame.row.apply program.space cursor.file with
    | error error' =>
      constructor
      · intro h
        cases h
        rfl
      · intro h
        cases h
        rfl
    | ok file =>
      constructor
      · intro h
        cases h
      · intro h
        cases h
  · intro caller hcaller
    rw [hlocation] at hcaller
    obtain ⟨file, hfile, rfl⟩ := Outcome.map_eq_ok.mp hcaller
    rw [hfile] at hresult hnext
    refine ⟨hresult, congrArg Position.file hnext.stands, rfl, ?_⟩
    exact congrArg Position.lookupPc hnext.stands

/-- Wherever a cursor finds its function, the frame can be left by the location
that was found, before the look for it is remembered and after it. -/
theorem leaves_alike (hreach : cursor.Reachable program) {info : ProcInfo}
    (hinfo : (procInfo.outcome program cursor).1 = .ok (some info)) :
    LeavesAlike program cursor info ∧
      LeavesAlike program (procInfo.outcome program cursor).2 info := by
  have hat := hreach.stands
  obtain ⟨frame, hframe, rfl⟩ := hat.frame_of_procInfo hinfo
  refine ⟨hat.leavesAlike hframe, ?_⟩
  rw [procInfo_outcome hat.knows]
  exact hat.looked.leavesAlike hframe

/-- A function of whose code only the first bytes have a frame entry, to which
the compact index defers for all of it. -/
def deferringMemory : Snapshot where
  endian := .little
  regions := [
    ⟨0x100000, [0x14, 0, 0, 0, 0, 0, 0, 0, 1, 0x7a, 0x52, 0, 1, 0x78, 0x10, 1, 0x1b, 0x0c, 7, 8,
      0x90, 1, 0, 0, 0x14, 0, 0, 0, 0x1c, 0, 0, 0, 0xe0, 0x0f, 0x10, 0, 0, 1, 0, 0, 0, 0, 0, 0, 0,
      0, 0, 0, 0, 0, 0, 0]⟩,
    ⟨0x208000, [1, 0, 0, 0, 0x1c, 0, 0, 0, 0, 0, 0, 0, 0x1c, 0, 0, 0, 0, 0, 0, 0, 0x1c, 0, 0, 0, 2,
      0, 0, 0, 0, 0x10, 0, 0, 0x34, 0, 0, 0, 0x34, 0, 0, 0, 0, 0x20, 0, 0, 0, 0, 0, 0, 0x34, 0, 0,
      0, 2, 0, 0, 0, 8, 0, 1, 0, 0, 0x10, 0, 0, 0x18, 0, 0, 4]⟩,
    ⟨0x7000, [0x34, 0x12, 0x20, 0, 0, 0, 0, 0]⟩]

def deferringProgram : Program :=
  .ofObjects deferringMemory.space [⟨0x200000, 0x202000,
    ⟨none, some (0x100000, 0x34), some ⟨0x208000, 0x44, 0x200000⟩, .unknown⟩⟩]

/-- The function, as its frame entry describes it. -/
def deferringInfo : ProcInfo where
  startIp := 0x201000
  endIp := 0x201100
  lsda := none
  personality := none
  argsSize := 0
  signalFrame := false
  location := .entry 0x100018 .unknown

/-- The registers of a frame in the function, at an address in it. -/
def deferringFile (ip : Word) : RegisterFile .x86_64 := (RegisterFile.zero.setSp 0x7000).setIp ip

theorem procInfo_deferring :
    (procInfo.outcome deferringProgram (start (deferringFile 0x201080))).1 =
      .ok (some deferringInfo) := by
  decide +kernel

theorem leaves_alike_deferring :
    ∃ cursor : Cursor .x86_64, cursor.Reachable deferringProgram ∧
      (procInfo.outcome deferringProgram cursor).1 = .ok (some deferringInfo) ∧
      (step.outcome deferringProgram cursor).2.lookupPc = 0x201233 ∧
      LeavesAlike deferringProgram cursor deferringInfo ∧
      LeavesAlike deferringProgram (procInfo.outcome deferringProgram cursor).2 deferringInfo := by
  have hreach : (start (deferringFile 0x201080)).Reachable deferringProgram := ⟨_, [], rfl⟩
  have hnext : (step.outcome deferringProgram (start (deferringFile 0x201080))).2.lookupPc =
      0x201233 := by
    decide +kernel
  exact ⟨_, hreach, procInfo_deferring, hnext, leaves_alike hreach procInfo_deferring⟩

end Cursor

end Unwinding
