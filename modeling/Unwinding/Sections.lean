import Unwinding.Compact.Index
import Unwinding.Lookup.Scan
import Unwinding.Lookup.Table
import Unwinding.Restore

/-!
# Locating the function of a frame

Every loaded object has its own unwind sections, and not every object has all
of them. The compact index is asked first, since it can send the search to a
frame entry; otherwise the lookup table is searched, and the frame section is
scanned where the table cannot be.
-/

namespace Unwinding

/-- The unwind sections of one loaded object. -/
structure UnwindSections where
  /-- The address of the lookup table's header. -/
  table : Option Word
  /-- The start and the length of the frame section. -/
  frames : Option (Word × Word)
  compact : Option CompactIndex
  bases : Bases
  deriving Repr, DecidableEq

/-- The code of a loaded object, from `start` up to `stop`. -/
structure LoadedObject where
  start : Word
  stop : Word
  sections : UnwindSections
  deriving Repr, DecidableEq

/-- An object as a dynamic linker tells of it: where it is mapped, and where
its lookup table is. -/
def LoadedObject.linked (start stop table : Word) : LoadedObject where
  start
  stop
  sections := ⟨some table, none, none, ⟨some start, none, none⟩⟩

/-- A program as the unwinder sees it: its memory, and the unwind sections
for each code address. -/
structure Program where
  space : AddressSpace
  sections : (pc : Word) → Option UnwindSections

/-- The program made of `objects`. The first object that holds an address
answers for it. -/
def Program.ofObjects (space : AddressSpace) (objects : List LoadedObject) : Program where
  space
  sections pc :=
    (objects.find? fun object => decide (object.start ≤ pc ∧ pc < object.stop)).map (·.sections)

/-- What is known about the function of a frame. -/
structure ProcInfo where
  startIp : Word
  endIp : Word
  lsda : Option Word
  personality : Option Word
  /-- The bytes of arguments on the stack at this place. -/
  argsSize : Word
  signalFrame : Bool
  location : Location
  deriving Repr, DecidableEq

/-- A function and the row in force where its frame executes. -/
structure Frame where
  info : ProcInfo
  row : Row
  deriving Repr, DecidableEq

namespace Program

variable (program : Program) (arch : Arch)

/-- The frame described by the frame entry at `address`. -/
def entryFrame (bases : Bases) (address pc : Word) : Except StepError Frame := do
  let (row, entry, common) ← FrameEntry.rowAt arch program.space bases address pc
  return {
    info := {
      startIp := entry.pcStart
      endIp := entry.pcEnd
      lsda := entry.lsda
      personality := common.personality
      argsSize := row.argsSize
      signalFrame := row.signalFrame
      location := .entry entry.address bases }
    row }

/-- Where the frame section of an object starts, as far as that is known. -/
def frameSection (sections : UnwindSections) : Except CfiError (Option Word) :=
  match sections.frames, sections.table with
  | some (start, _), _ => .ok (some start)
  | none, some table => do return some (← LookupTable.read program.space table).frames
  | none, none => .ok none

/-- The frame entry that covers `pc`. A table that cannot be searched sends
the search to the section itself. -/
def findEntry (sections : UnwindSections) (pc : Word) : Except CfiError (Option FrameEntry) :=
  match sections.table, sections.frames with
  | some address, frames => do
    let table ← LookupTable.read program.space address
    match table.find program.space sections.bases pc with
    | .error (.unsearchableTable _) =>
      FrameSection.scan program.space sections.bases table.frames (frames.map (·.2)) pc
    | result => result
  | none, some (start, length) =>
    FrameSection.scan program.space sections.bases start (some length) pc
  | none, none => .ok none

/-- The frame that a compact entry describes. Where it defers to a frame
entry it can still add a personality and language data. -/
def compactFrame (sections : UnwindSections) (pc : Word) (entry : CompactEntry) :
    Except StepError (Option Frame) := do
  match ← entry.encoding.decode arch program.space entry.startIp with
  | .row row =>
    return some {
      info := {
        startIp := entry.startIp
        endIp := entry.endIp
        lsda := entry.lsda
        personality := entry.personality
        argsSize := 0
        signalFrame := false
        location := .compact entry.encoding entry.startIp }
      row }
  | .deferred offset =>
    let some start ← program.frameSection sections | throw (.deferred offset)
    let frame ← program.entryFrame arch sections.bases (start + UInt64.ofNat offset) pc
    return some { frame with info := { frame.info with
      personality := frame.info.personality <|> entry.personality
      lsda := frame.info.lsda <|> entry.lsda } }
  | .none => return none

/-- The frame described by frame entries alone. -/
def tableFrame (sections : UnwindSections) (pc : Word) : Except StepError (Option Frame) := do
  match ← program.findEntry sections pc with
  | some entry => return some (← program.entryFrame arch sections.bases entry.address pc)
  | none => return none

/-- The frame of the function that holds `pc`, if unwind information covers it. -/
def locate (pc : Word) : Except StepError (Option Frame) := do
  match program.sections pc with
  | none => return none
  | some sections =>
    match sections.compact with
    | none => program.tableFrame arch sections pc
    | some index =>
      match ← index.find program.space pc with
      | some entry => program.compactFrame arch sections pc entry
      | none => program.tableFrame arch sections pc

end Program

end Unwinding
