import Unwinding.CallFrame.Entry
import Unwinding.Proofs.Reading.Pointer

/-!
# How entries are laid out

A layout is what a producer of call frame information decides on: the fields of
an entry, the form of its length, the letters of the augmentation string in some
order, and what is put where it is not looked at. It gives the bytes of the
entry, and the entry that these bytes are for. Pointers are given twice, as the
word that is stored and as the address that it stands for; a well-formed layout
says how the one leads to the other at the place where it is stored.
-/

namespace Unwinding

/-- The letters that can follow the `z` of an augmentation string. -/
inductive Letter where
  | pointers
  | personality
  | lsdas
  | signal
  | bKey
  | tagged
  deriving Repr, DecidableEq

def Letter.byte : Letter → UInt8
  | pointers => 0x52 -- R
  | personality => 0x50 -- P
  | lsdas => 0x4c -- L
  | signal => 0x53 -- S
  | bKey => 0x42 -- B
  | tagged => 0x47 -- G

namespace EntryHead

/-- How many bytes the length of an entry takes. -/
def lengthSize (long : Bool) : Nat := if long then 12 else 4

/-- What the first four bytes of an entry say. -/
def short (long : Bool) (length : Nat) : Nat := if long then 0xffffffff else length + 4

/-- The bytes in front of the content of an entry. -/
def write (endian : Endian) (long : Bool) (id length : Nat) : List UInt8 :=
  endian.encode 4 (short long length) ++
    ((if long then endian.encode 8 (length + 4) else []) ++ endian.encode 4 id)

/-- The short form cannot tell every length. -/
def Tells (long : Bool) (length : Nat) : Prop := long = false → length + 4 < 0xffffffff

theorem write_length (endian : Endian) (long : Bool) (id length : Nat) :
    (write endian long id length).length = lengthSize long + 4 := by
  unfold write lengthSize
  cases long <;> simp

theorem short_pos {long : Bool} {length : Nat} (h : Tells long length) :
    0 < short long length ∧ short long length < 256 ^ 4 := by
  unfold short
  cases long with
  | true =>
    change 0 < 0xffffffff ∧ 0xffffffff < 256 ^ 4
    decide
  | false =>
    have hlength := h rfl
    change 0 < length + 4 ∧ length + 4 < 256 ^ 4
    omega

end EntryHead

structure CommonLayout where
  /-- The length takes 64 bits. -/
  long : Bool
  version : UInt8
  /-- The letters behind the `z`, unless the string is empty. -/
  augmentation : Option (List Letter)
  codeFactor : Word
  dataFactor : Int64
  column : Nat
  pointerEncoding : Encoding
  lsdaEncoding : Encoding
  personalityEncoding : Encoding
  storedPersonality : Word
  personality : Word
  /-- What is left of the augmentation data behind the fields. -/
  padding : List UInt8
  instructions : List UInt8
  deriving Repr, DecidableEq

namespace CommonLayout

variable (layout : CommonLayout) (endian : Endian)

def letters : List Letter := layout.augmentation.getD []

/-- The augmentation string. -/
def codes : List UInt8 :=
  match layout.augmentation with
  | some letters => 0x7a :: letters.map Letter.byte
  | none => []

/-- The column takes one byte in the first version. -/
def columnBytes : List UInt8 :=
  if layout.version = 1 then [UInt8.ofNat layout.column]
  else Reading.encodeUnsigned layout.column

/-- What a letter announces in the augmentation data. -/
def field : Letter → List UInt8
  | .pointers => [layout.pointerEncoding.byte]
  | .personality =>
    layout.personalityEncoding.byte ::
      layout.personalityEncoding.write endian layout.storedPersonality
  | .lsdas => [layout.lsdaEncoding.byte]
  | .signal | .bKey | .tagged => []

def data (letters : List Letter) : List UInt8 := letters.flatMap (layout.field endian)

/-- The fields in front of the augmentation data. -/
def front : List UInt8 :=
  [layout.version] ++ ((layout.codes ++ [0]) ++ (Reading.encodeUnsigned layout.codeFactor.toNat ++
    (Reading.encodeSigned layout.dataFactor.toInt ++ layout.columnBytes)))

/-- The length of the augmentation data. -/
def dataLength : List UInt8 :=
  Reading.encodeUnsigned (layout.data endian layout.letters ++ layout.padding).length

/-- The augmentation data behind its length, which only a string with letters
announces. -/
def augmented : List UInt8 :=
  if layout.augmentation.isSome then
    layout.dataLength endian ++ (layout.data endian layout.letters ++ layout.padding)
  else []

def content : List UInt8 := layout.front ++ (layout.augmented endian ++ layout.instructions)

def bytes : List UInt8 :=
  EntryHead.write endian layout.long 0 (layout.content endian).length ++ layout.content endian

theorem content_length : (layout.content endian).length =
    layout.front.length + (layout.augmented endian).length + layout.instructions.length := by
  unfold content
  rw [List.length_append, List.length_append, Nat.add_assoc]

theorem bytes_length : (layout.bytes endian).length =
    EntryHead.lengthSize layout.long + 4 + (layout.content endian).length := by
  unfold bytes
  rw [List.length_append, EntryHead.write_length]

/-- Where in the entry the augmentation data begins. -/
def dataOffset : Nat :=
  EntryHead.lengthSize layout.long + 4 + layout.front.length + (layout.dataLength endian).length

/-- The entry that is laid out at `address`. -/
def entry (address : Word) : CommonEntry where
  address
  length := UInt64.ofNat (layout.bytes endian).length
  version := layout.version
  codeFactor := layout.codeFactor
  dataFactor := layout.dataFactor
  returnAddress := layout.column
  instructions :=
    ⟨address + UInt64.ofNat ((layout.bytes endian).length - layout.instructions.length),
      address + UInt64.ofNat (layout.bytes endian).length⟩
  pointerEncoding := if .pointers ∈ layout.letters then layout.pointerEncoding else .absolute
  lsdaEncoding := if .lsdas ∈ layout.letters then layout.lsdaEncoding else .absent
  personality := if .personality ∈ layout.letters then some layout.personality else none
  hasAugmentation := layout.augmentation.isSome
  isSignalFrame := decide (.signal ∈ layout.letters)
  signedWithBKey := decide (.bKey ∈ layout.letters)
  taggedMemory := decide (.tagged ∈ layout.letters)

/-- In the data of the letters from `start` on, the stored word leads to the
personality. -/
def LeadsToPersonality (space : AddressSpace) (bases : Bases) (letters : List Letter)
    (start : Word) : Prop :=
  ∀ before behind, letters = before ++ .personality :: behind →
    layout.personality ≠ 0 ∧ layout.personalityEncoding.Holds layout.storedPersonality ∧
      layout.personalityEncoding.Resolves space bases
        (start + UInt64.ofNat ((layout.data space.endian before).length + 1))
        layout.storedPersonality layout.personality

/-- The layout can be put at `address`, where its personality is what the stored
word leads to. -/
structure WellFormed (space : AddressSpace) (bases : Bases) (address : Word) : Prop where
  version : layout.version = 1 ∨ layout.version = 3
  column : layout.column < if layout.version = 1 then 256 else 65536
  personality : layout.LeadsToPersonality space bases layout.letters
    (address + UInt64.ofNat (layout.dataOffset space.endian))
  length : EntryHead.Tells layout.long (layout.content space.endian).length
  fits : address.toNat + (layout.bytes space.endian).length < UInt64.size

end CommonLayout

structure FrameLayout where
  long : Bool
  storedStart : Word
  pcStart : Word
  range : Word
  storedLsda : Word
  lsda : Option Word
  /-- What is left of the augmentation data behind the language data. -/
  padding : List UInt8
  instructions : List UInt8
  deriving Repr, DecidableEq

namespace FrameLayout

variable (layout : FrameLayout) (endian : Endian) (common : CommonEntry)

/-- How far the entry at `address` is from its common entry. -/
def distance (address : Word) : Word :=
  address + UInt64.ofNat (EntryHead.lengthSize layout.long) - common.address

/-- The addresses of the function. -/
def front : List UInt8 :=
  common.pointerEncoding.write endian layout.storedStart ++
    common.pointerEncoding.write endian layout.range

def lsdaBytes : List UInt8 :=
  if common.lsdaEncoding.isAbsent then []
  else common.lsdaEncoding.write endian layout.storedLsda

/-- The length of the augmentation data. -/
def dataLength : List UInt8 :=
  Reading.encodeUnsigned (layout.lsdaBytes endian common ++ layout.padding).length

def augmented : List UInt8 :=
  if common.hasAugmentation then
    layout.dataLength endian common ++ (layout.lsdaBytes endian common ++ layout.padding)
  else []

def content : List UInt8 :=
  layout.front endian common ++ (layout.augmented endian common ++ layout.instructions)

def bytes (address : Word) : List UInt8 :=
  EntryHead.write endian layout.long (layout.distance common address).toNat
    (layout.content endian common).length ++ layout.content endian common

theorem content_length : (layout.content endian common).length =
    (layout.front endian common).length + (layout.augmented endian common).length +
      layout.instructions.length := by
  unfold content
  rw [List.length_append, List.length_append, Nat.add_assoc]

theorem bytes_length (address : Word) : (layout.bytes endian common address).length =
    EntryHead.lengthSize layout.long + 4 + (layout.content endian common).length := by
  unfold bytes
  rw [List.length_append, EntryHead.write_length]

/-- The entry that is laid out at `address`. -/
def entry (address : Word) : FrameEntry where
  address
  length := UInt64.ofNat (layout.bytes endian common address).length
  common := common.address
  pcStart := layout.pcStart
  pcEnd := layout.pcStart + layout.range
  lsda := layout.lsda
  instructions :=
    ⟨address + UInt64.ofNat ((layout.bytes endian common address).length -
        layout.instructions.length),
      address + UInt64.ofNat (layout.bytes endian common address).length⟩

/-- The language data is there if the stored word is not zero. -/
inductive StoresLsda (space : AddressSpace) (bases : Bases) (field : Word) : Prop
  | absent : layout.lsda = none →
      common.hasAugmentation = false ∨ common.lsdaEncoding.isAbsent = true →
      StoresLsda space bases field
  | zero : layout.lsda = none → common.lsdaEncoding.isAbsent = false →
      layout.storedLsda = 0 → common.lsdaEncoding.Holds 0 → StoresLsda space bases field
  | some {target : Word} : layout.lsda = some target →
      common.hasAugmentation = true → common.lsdaEncoding.isAbsent = false →
      layout.storedLsda ≠ 0 → common.lsdaEncoding.Holds layout.storedLsda →
      common.lsdaEncoding.Resolves space bases field layout.storedLsda target →
      StoresLsda space bases field

/-- The layout can be put at `address`, where its pointers are what the stored
words lead to. -/
structure WellFormed (space : AddressSpace) (bases : Bases) (address : Word) : Prop where
  start : common.pointerEncoding.Holds layout.storedStart ∧
    common.pointerEncoding.Resolves space bases
      (address + UInt64.ofNat (EntryHead.lengthSize layout.long + 4)) layout.storedStart
      layout.pcStart
  range : common.pointerEncoding.Holds layout.range
  lsda : layout.StoresLsda common space bases
    (address + UInt64.ofNat (EntryHead.lengthSize layout.long + 4 +
      (layout.front space.endian common).length +
      (layout.dataLength space.endian common).length))
  distance : (layout.distance common address).toNat < 2 ^ 32
  length : EntryHead.Tells layout.long (layout.content space.endian common).length
  fits : address.toNat + (layout.bytes space.endian common address).length < UInt64.size

end FrameLayout

end Unwinding
