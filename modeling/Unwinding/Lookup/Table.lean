import Unwinding.CallFrame.Machine
import Unwinding.Lookup.Search

/-!
# The lookup table of the frame section

A header in front of the table says where the frame section starts, how many
functions the table lists and how its two columns are encoded: where each
function starts, ascending, and where its frame entry is. Values relative to
data are relative to the header itself.
-/

namespace Unwinding

structure LookupTable where
  /-- The address of the header. -/
  address : Word
  /-- The address of the frame section. -/
  frames : Word
  count : Word
  encoding : Encoding
  /-- The address of the first table entry. -/
  entries : Word
  deriving Repr, DecidableEq

namespace LookupTable

def bases (address : Word) : Bases := { Bases.unknown with data := some address }

/-- Reads the header. Without an encoding for the count or for the entries
the table counts as empty. -/
def reading (address : Word) : Reading CfiError LookupTable := do
  let version ← Reading.u8
  if version ≠ 1 then throw (.unsupportedHeaderVersion version)
  let sectionEncoding := Encoding.mk (← Reading.u8)
  let countEncoding := Encoding.mk (← Reading.u8)
  let encoding := Encoding.mk (← Reading.u8)
  let frames ← Reading.encodedPointer sectionEncoding (bases address)
  let count ←
    if countEncoding.isAbsent ∨ encoding.isAbsent then pure 0
    else liftM (Reading.encodedPointer countEncoding (bases address))
  return { address, frames, count, encoding, entries := ← Reading.pos }

def read (space : AddressSpace) (address : Word) : Except CfiError LookupTable :=
  (reading address).result space (.unbounded address)

/-- The start of the function, then the address of its frame entry. -/
def entryReading (table : LookupTable) : Reading CfiError (Word × Word) := do
  let start ← Reading.encodedPointer table.encoding (bases table.address)
  let entry ← Reading.encodedPointer table.encoding (bases table.address)
  return (start, entry)

/-- Entry `index` of a table whose values take `size` bytes each. -/
def entry (table : LookupTable) (space : AddressSpace) (size index : Nat) :
    Except CfiError (Word × Word) :=
  table.entryReading.result space
    (.unbounded (table.entries + UInt64.ofNat (index * (2 * size))))

/-- Entries can be addressed by index only if their values have one size and
are not indirect. -/
def valueSize (table : LookupTable) : Except CfiError Nat :=
  match table.encoding.size with
  | some size =>
    if table.encoding.isIndirect then .error (.unsearchableTable table.encoding) else .ok size
  | none => .error (.unsearchableTable table.encoding)

/-- The frame entry of the last function that starts at or before `pc`. It
need not reach as far as `pc`. -/
def search (table : LookupTable) (space : AddressSpace) (pc : Word) :
    Except CfiError (Option Word) := do
  if table.count = 0 then return none
  let size ← table.valueSize
  let start (index : Nat) : Except CfiError Word := return (← table.entry space size index).1
  let index ← Search.narrow start pc 0 table.count.toNat
  let (first, found) ← table.entry space size index
  if pc < first then return none
  return some found

def find (table : LookupTable) (space : AddressSpace) (bases : Bases) (pc : Word) :
    Except CfiError (Option FrameEntry) := do
  match ← table.search space pc with
  | none => return none
  | some address =>
    let (entry, _) ← FrameEntry.decode space bases address
    return if entry.covers pc then some entry else none

end LookupTable

end Unwinding
