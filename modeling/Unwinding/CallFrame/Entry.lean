import Unwinding.CallFrame.Error

/-!
# Entries of the frame section

The section is a sequence of entries, each with its length in front. A common
entry holds what many functions share: alignment factors, the return address
column, the encodings of pointers and the initial instructions. A frame entry
names its common entry by a distance, covers the addresses of one function and
holds that function's instructions. The augmentation string of a common entry
says which optional fields follow, and in which order.
-/

namespace Unwinding

/-- The length and the kind of the entry at `address`. -/
structure EntryHead where
  address : Word
  /-- Where the identification is stored; common entries are named relative to it. -/
  idField : Word
  /-- Zero for a common entry, the distance back to one for a frame entry. -/
  id : UInt32
  /-- One past the last byte of the entry. -/
  stop : Word
  deriving Repr, DecidableEq

namespace EntryHead

/-- Reads a head. A length of all ones announces a 64-bit length, and a length
of zero ends the section. -/
def reading : Reading CfiError EntryHead := do
  let address ← Reading.pos
  let short ← Reading.u32
  if short = 0 then throw (.terminator address)
  let length ← if short = 0xffffffff then liftM Reading.u64 else pure short.toUInt64
  let idField ← Reading.pos
  if UInt64.size ≤ idField.toNat + length.toNat then
    throw (.memory (.pastLimit idField length.toNat lastAddress))
  let id ← Reading.u32
  return ⟨address, idField, id, idField + length⟩

def read (space : AddressSpace) (address : Word) : Except CfiError EntryHead :=
  reading.result space (.unbounded address)

/-- What follows the head. -/
def body (head : EntryHead) : Span := ⟨head.idField + 4, head.stop⟩

/-- The size of the entry, its length field included. -/
def length (head : EntryHead) : Word := head.stop - head.address

/-- Reads the length of the augmentation data and answers where the data
ends, which must be inside the entry. -/
def augmentationEnd (head : EntryHead) : Reading CfiError Word := do
  let count ← Reading.uleb128
  let start ← Reading.pos
  if start.toNat + count.toNat ≤ head.stop.toNat then return start + count
  else throw (.augmentationOverrun head.address count)

end EntryHead

/-- What the functions of one group share. -/
structure CommonEntry where
  address : Word
  length : Word
  version : UInt8
  /-- Location advances are stored divided by this. -/
  codeFactor : Word
  /-- Most offsets are stored divided by this. -/
  dataFactor : Int64
  /-- The column whose rule gives the return address. -/
  returnAddress : Register
  instructions : Span
  /-- How frame entries store code addresses. -/
  pointerEncoding : Encoding
  /-- How frame entries store the address of their language data. -/
  lsdaEncoding : Encoding
  personality : Option Word
  /-- Frame entries carry the length of their augmentation data. -/
  hasAugmentation : Bool
  /-- The frames were entered by a signal, not by a call. -/
  isSignalFrame : Bool
  /-- Return addresses are signed with the second key. -/
  signedWithBKey : Bool
  /-- The frames use tagged stack memory. -/
  taggedMemory : Bool
  deriving Repr, DecidableEq

namespace CommonEntry

/-- The bytes of the augmentation string up to its terminator. The bytes left
in the entry bound its length. -/
def augmentationString : (left : Nat) → Reading CfiError (List UInt8)
  | 0 => do
    let span ← get
    throw (.memory (.pastLimit span.pos 1 span.limit))
  | left + 1 => do
    let byte ← Reading.u8
    if byte = 0 then return []
    return byte :: (← augmentationString left)

/-- The string begins with the old two-letter form, which puts a pointer in
front of the alignment factors. -/
def isLegacy : List UInt8 → Bool
  | 0x65 :: 0x68 :: _ => true
  | _ => false

/-- What the augmentation string has said so far, and where the augmentation
data ends if its length was given. -/
structure Augmented where
  entry : CommonEntry
  dataEnd : Option Word
  deriving Repr, DecidableEq

/-- Reads the optional fields in the order of the string. Once the length of
the data is known, the fields from an unknown letter on can be passed over. -/
def augment (head : EntryHead) (bases : Bases) :
    List UInt8 → Augmented → Reading CfiError Augmented
  | [], found => return found
  | letter :: letters, found => do
    let entry := found.entry
    match letter with
    | 0x7a => do -- z
      let dataEnd ← head.augmentationEnd
      augment head bases letters ⟨{ entry with hasAugmentation := true }, some dataEnd⟩
    | 0x50 => do -- P
      let encoding := Encoding.mk (← Reading.u8)
      let routine ← Reading.encodedPointer encoding bases
      let personality := if routine = 0 then none else some routine
      augment head bases letters { found with entry := { entry with personality } }
    | 0x4c => do -- L
      let lsdaEncoding := Encoding.mk (← Reading.u8)
      augment head bases letters { found with entry := { entry with lsdaEncoding } }
    | 0x52 => do -- R
      let pointerEncoding := Encoding.mk (← Reading.u8)
      augment head bases letters { found with entry := { entry with pointerEncoding } }
    | 0x53 => -- S
      augment head bases letters { found with entry := { entry with isSignalFrame := true } }
    | 0x42 => -- B
      augment head bases letters { found with entry := { entry with signedWithBKey := true } }
    | 0x47 => -- G
      augment head bases letters { found with entry := { entry with taggedMemory := true } }
    | 0x65 | 0x68 => augment head bases letters found -- e, h
    | _ =>
      if found.dataEnd.isSome then return found
      else throw (.unknownAugmentation head.address letter)

def fields (head : EntryHead) (bases : Bases) : Reading CfiError CommonEntry := do
  let version ← Reading.u8
  if version ≠ 1 ∧ version ≠ 3 then throw (.unsupportedVersion head.address version)
  let letters ← augmentationString (← get).remaining
  if isLegacy letters then let _ ← Reading.pointer
  let codeFactor ← Reading.uleb128
  let dataFactor ← Reading.sleb128
  let column ← if version = 1 then do pure (← Reading.u8).toUInt64 else liftM Reading.uleb128
  let returnAddress ← Reading.fetch fun _ => Register.ofWord column
  let found ← augment head bases letters {
    entry := {
      address := head.address
      length := head.length
      version, codeFactor, dataFactor, returnAddress
      instructions := ⟨0, 0⟩
      pointerEncoding := .absolute
      lsdaEncoding := .absent
      personality := none
      hasAugmentation := false
      isSignalFrame := false
      signedWithBKey := false
      taggedMemory := false }
    dataEnd := none }
  let start := found.dataEnd.getD (← Reading.pos)
  return { found.entry with instructions := ⟨start, head.stop⟩ }

def decode (space : AddressSpace) (bases : Bases) (address : Word) :
    Except CfiError CommonEntry := do
  let head ← EntryHead.read space address
  if head.id ≠ 0 then throw (.notCommon address head.id)
  (fields head bases).result space head.body

end CommonEntry

/-- The unwind information of one function. -/
structure FrameEntry where
  address : Word
  length : Word
  /-- The address of the common entry. -/
  common : Word
  pcStart : Word
  pcEnd : Word
  /-- The language data that the function's personality works on. -/
  lsda : Option Word
  instructions : Span
  deriving Repr, DecidableEq

namespace FrameEntry

/-- The function holds the instruction at `pc`. -/
def covers (entry : FrameEntry) (pc : Word) : Bool :=
  decide (entry.pcStart ≤ pc ∧ pc < entry.pcEnd)

/-- Reads the address of the language data. A stored zero means that there is
none, whatever the encoding would add to it. -/
def lsdaField (common : CommonEntry) (bases : Bases) : Reading CfiError (Option Word) := do
  if common.lsdaEncoding.isAbsent then return none
  let field ← Reading.pos
  let stored ← Reading.encodedPointer common.lsdaEncoding.valueOnly bases
  if stored = 0 then return none
  Reading.seek field
  return some (← Reading.encodedPointer common.lsdaEncoding bases)

def fields (head : EntryHead) (common : CommonEntry) (bases : Bases) :
    Reading CfiError FrameEntry := do
  let pcStart ← Reading.encodedPointer common.pointerEncoding bases
  let range ← Reading.encodedPointer common.pointerEncoding.valueOnly bases
  let entry : FrameEntry := {
    address := head.address
    length := head.length
    common := common.address
    pcStart
    pcEnd := pcStart + range
    lsda := none
    instructions := ⟨0, head.stop⟩ }
  if common.hasAugmentation then
    let dataEnd ← head.augmentationEnd
    let lsda ← lsdaField common bases
    return { entry with lsda, instructions := ⟨dataEnd, head.stop⟩ }
  else return { entry with instructions := ⟨← Reading.pos, head.stop⟩ }

/-- Decodes the frame entry at `address` together with its common entry. -/
def decode (space : AddressSpace) (bases : Bases) (address : Word) :
    Except CfiError (FrameEntry × CommonEntry) := do
  let head ← EntryHead.read space address
  if head.id = 0 then throw (.notFrame address)
  let common ← CommonEntry.decode space bases (head.idField - head.id.toUInt64)
  let entry ← (fields head common bases).result space head.body
  return (entry, common)

end FrameEntry

end Unwinding
