import Unwinding.Compact.Encoding
import Unwinding.Lookup.Search

/-!
# The index of compact encodings

The index has two levels. The first is an array of function offsets, each
with a page of functions and a slice of the language data index; its last
entry only marks the end. Pages come in two kinds: regular ones hold function
offsets and encodings, compressed ones hold short offsets, relative to the
page's first function, and numbers of encodings, which are looked up in a
common table and then in the page's own. Offsets of functions are relative to
the image, all others to the section or the page.
-/

namespace Unwinding

/-- Where the index is mapped. -/
structure CompactIndex where
  address : Word
  length : Word
  /-- The address that function offsets are relative to. -/
  imageBase : Word
  deriving Repr, DecidableEq

/-- What the index says about a function. -/
structure CompactEntry where
  startIp : Word
  endIp : Word
  encoding : CompactEncoding
  personality : Option Word
  lsda : Option Word
  deriving Repr, DecidableEq

namespace CompactIndex

/-- Where the tables of the index are, and how long they are. -/
structure Header where
  encodings : Word
  encodingCount : UInt32
  personalities : Word
  personalityCount : UInt32
  pages : Word
  pageCount : UInt32
  deriving Repr, DecidableEq

/-- An entry of the first level. -/
structure PageEntry where
  functionOffset : UInt32
  page : Word
  lsdas : Word
  deriving Repr, DecidableEq

/-- A function as its page describes it. -/
structure Function where
  first : UInt32
  stop : UInt32
  encoding : CompactEncoding
  deriving Repr, DecidableEq

variable (index : CompactIndex) (space : AddressSpace)

/-- Element `n` of a table whose elements take `size` bytes. -/
def element (table : Word) (size n : Nat) : Word := table + UInt64.ofNat (n * size)

def headerReading : Reading CompactError Header := do
  let version ← Reading.u32
  if version ≠ 1 then throw (.unsupportedVersion version)
  let encodings := index.address + (← Reading.u32).toUInt64
  let encodingCount ← Reading.u32
  let personalities := index.address + (← Reading.u32).toUInt64
  let personalityCount ← Reading.u32
  let pages := index.address + (← Reading.u32).toUInt64
  let pageCount ← Reading.u32
  return { encodings, encodingCount, personalities, personalityCount, pages, pageCount }

def header : Except CompactError Header :=
  index.headerReading.result space ⟨index.address, index.address + index.length⟩

def pageEntryReading : Reading CompactError PageEntry := do
  let functionOffset ← Reading.u32
  let page := index.address + (← Reading.u32).toUInt64
  let lsdas := index.address + (← Reading.u32).toUInt64
  return { functionOffset, page, lsdas }

def pageEntry (header : Header) (n : Nat) : Except CompactError PageEntry :=
  index.pageEntryReading.result space (.unbounded (element header.pages 12 n))

/-- The function at offset `target` on a regular page of `count` entries. -/
def regular (entries : Word) (count : Nat) (target stop : UInt32) :
    Except CompactError (Option Function) := do
  let offset (n : Nat) : Except CompactError UInt32 :=
    CompactError.load32 space (element entries 8 n)
  match ← Search.lastAtOrBefore offset target count with
  | none => return none
  | some n =>
    let first ← offset n
    let bits ← CompactError.load32 space (element entries 8 n + 4)
    let stop ← if n + 1 < count then offset (n + 1) else pure stop
    return some ⟨first, stop, ⟨bits⟩⟩

/-- Encoding number `n`, from the common table or from the page's own. -/
def numberedEncoding (header : Header) (encodings : Word) (count n : Nat) :
    Except CompactError CompactEncoding := do
  let common := header.encodingCount.toNat
  if n < common then
    return ⟨← CompactError.load32 space (element header.encodings 4 n)⟩
  else if n - common < count then
    return ⟨← CompactError.load32 space (element encodings 4 (n - common))⟩
  else throw (.badEncodingIndex n)

/-- The function at offset `target` on a compressed page of `count` entries
whose first function is at offset `base`. -/
def compressed (header : Header) (entries : Word) (count : Nat) (encodings : Word)
    (encodingCount : Nat) (base target stop : UInt32) :
    Except CompactError (Option Function) := do
  let raw (n : Nat) : Except CompactError UInt32 :=
    CompactError.load32 space (element entries 4 n)
  let offset (n : Nat) : Except CompactError UInt32 := return (← raw n) &&& 0x00ffffff
  match ← Search.lastAtOrBefore offset (target - base) count with
  | none => return none
  | some n =>
    let entry ← raw n
    let stop ← if n + 1 < count then (base + ·) <$> offset (n + 1) else pure stop
    let encoding ← numberedEncoding space header encodings encodingCount (entry >>> 24).toNat
    return some ⟨base + (entry &&& 0x00ffffff), stop, encoding⟩

/-- What precedes the entries of a page. The last two fields are there on
compressed pages only. -/
def pageReading (header : Header) (current next : PageEntry) (target : UInt32) :
    Reading CompactError (Option Function) := do
  let kind ← Reading.u32
  let entries := current.page + (← Reading.u16).toUInt64
  let count ← Reading.u16
  match kind with
  | 2 => Reading.fetch fun space =>
      regular space entries count.toNat target next.functionOffset
  | 3 => do
    let encodings := current.page + (← Reading.u16).toUInt64
    let encodingCount ← Reading.u16
    Reading.fetch fun space =>
      compressed space header entries count.toNat encodings encodingCount.toNat
        current.functionOffset target next.functionOffset
  | _ => throw (.badPageKind kind)

/-- The language data of the function at offset `first`, which must have an
entry in the slice of its page. -/
def lsda (current next : PageEntry) (first : UInt32) : Except CompactError Word := do
  let function (n : Nat) : Except CompactError UInt32 :=
    CompactError.load32 space (element current.lsdas 8 n)
  let count := UInt32.ofNat ((next.lsdas.toNat - current.lsdas.toNat) / 8)
  let missing := CompactError.missingLsda (index.imageBase + first.toUInt64)
  match ← Search.lastAtOrBefore function first count.toNat with
  | none => throw missing
  | some n =>
    if (function n).toOption = some first then
      return index.imageBase + (← CompactError.load32 space (element current.lsdas 8 n + 4)).toUInt64
    else throw missing

/-- Personality number `n`. Its table entry leads to a slot that holds its
address. -/
def personality (header : Header) (n : Nat) : Except CompactError (Option Word) := do
  if n = 0 then return none
  if header.personalityCount.toNat < n then throw (.badPersonalityIndex n)
  let offset ← CompactError.load32 space (element header.personalities 4 (n - 1))
  let slot := index.imageBase + offset.toUInt64
  some <$> (space.pointer slot).mapError .memory

/-- The offset of `pc` from the image, if it has one. -/
def target (pc : Word) : Option UInt32 :=
  if index.imageBase ≤ pc ∧ pc.toNat - index.imageBase.toNat < UInt32.size then
    some (UInt32.ofNat (pc.toNat - index.imageBase.toNat))
  else none

/-- The entry of the function at offset `target`, if its page has one. -/
def lookup (header : Header) (target : UInt32) : Except CompactError (Option CompactEntry) := do
  -- The last entry only marks the end.
  let offset (n : Nat) : Except CompactError UInt32 :=
    return (← index.pageEntry space header n).functionOffset
  let some n ← Search.lastAtOrBefore offset target (header.pageCount.toNat - 1) | return none
  let current ← index.pageEntry space header n
  let next ← index.pageEntry space header (n + 1)
  if next.functionOffset ≤ target then return none
  let some function ←
    (pageReading header current next target).result space (.unbounded current.page)
    | return none
  if target < function.first ∨ function.stop ≤ target then return none
  let lsda ←
    if function.encoding.hasLsda then some <$> index.lsda space current next function.first
    else pure none
  let personality ← index.personality space header function.encoding.personality
  return some {
    startIp := index.imageBase + function.first.toUInt64
    endIp := index.imageBase + function.stop.toUInt64
    encoding := function.encoding
    personality
    lsda }

/-- The entry of the function that holds `pc`. -/
def find (pc : Word) : Except CompactError (Option CompactEntry) := do
  let header ← index.header space
  match index.target pc with
  | none => return none
  | some target =>
    if header.pageCount < 2 then return none
    index.lookup space header target

end CompactIndex

end Unwinding
