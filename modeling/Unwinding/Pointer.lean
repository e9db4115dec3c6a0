import Unwinding.Reading.Leb128

/-!
# Encoded pointers

Unwind tables store addresses in the form that one encoding byte names. The
low nibble is the format of the stored value, bits 4 to 6 say what the value
is relative to, and bit 7 asks for one more load through the result. The byte
`0xff` says that nothing is stored at all.
-/

namespace Unwinding

/-- How the stored value is written. -/
inductive Format where
  | pointer
  | uleb128
  | udata2
  | udata4
  | udata8
  | sleb128
  | sdata2
  | sdata4
  | sdata8
  deriving Repr, DecidableEq

namespace Format

def ofNibble : Nat → Option Format
  | 0x0 => some pointer
  | 0x1 => some uleb128
  | 0x2 => some udata2
  | 0x3 => some udata4
  | 0x4 => some udata8
  | 0x9 => some sleb128
  | 0xa => some sdata2
  | 0xb => some sdata4
  | 0xc => some sdata8
  | _ => none

/-- The bytes a value takes, where that does not depend on the value. -/
def size : Format → Option Nat
  | pointer | udata8 | sdata8 => some 8
  | udata2 | sdata2 => some 2
  | udata4 | sdata4 => some 4
  | uleb128 | sleb128 => none

def name : Format → String
  | pointer => "ptr"
  | uleb128 => "uleb128"
  | udata2 => "udata2"
  | udata4 => "udata4"
  | udata8 => "udata8"
  | sleb128 => "sleb128"
  | sdata2 => "sdata2"
  | sdata4 => "sdata4"
  | sdata8 => "sdata8"

/-- Reads a value, extending signed formats to the word. -/
def read : Format → Reading MemoryError Word
  | pointer => Reading.pointer
  | uleb128 => Reading.uleb128
  | udata2 => return (← Reading.u16).toUInt64
  | udata4 => return (← Reading.u32).toUInt64
  | udata8 => Reading.u64
  | sleb128 => return (← Reading.sleb128).toUInt64
  | sdata2 => return (← Reading.i16).toInt64.toUInt64
  | sdata4 => return (← Reading.i32).toInt64.toUInt64
  | sdata8 => return (← Reading.i64).toUInt64

end Format

/-- What the stored value is relative to. -/
inductive Application where
  | absolute
  /-- The address of the field itself. -/
  | field
  | text
  | data
  | function
  /-- The next aligned address; no reader here accepts it. -/
  | aligned
  deriving Repr, DecidableEq

namespace Application

def ofBits : Nat → Option Application
  | 0x00 => some absolute
  | 0x10 => some field
  | 0x20 => some text
  | 0x30 => some data
  | 0x40 => some function
  | 0x50 => some aligned
  | _ => none

def name : Application → String
  | absolute => "abs"
  | field => "pcrel"
  | text => "textrel"
  | data => "datarel"
  | function => "funcrel"
  | aligned => "aligned"

end Application

/-- The base addresses that are known where a pointer is read. -/
structure Bases where
  text : Option Word
  data : Option Word
  function : Option Word
  deriving Repr, DecidableEq

def Bases.unknown : Bases := ⟨none, none, none⟩

structure Encoding where
  byte : UInt8
  deriving Repr, DecidableEq

namespace Encoding

/-- Nothing is stored. -/
def absent : Encoding := ⟨0xff⟩

/-- A word, relative to nothing. -/
def absolute : Encoding := ⟨0⟩

def isAbsent (encoding : Encoding) : Bool := encoding.byte == 0xff

def formatBits (encoding : Encoding) : UInt8 := encoding.byte &&& 0x0f

def applicationBits (encoding : Encoding) : UInt8 := encoding.byte &&& 0x70

def isIndirect (encoding : Encoding) : Bool := encoding.byte &&& 0x80 != 0

def format (encoding : Encoding) : Option Format := Format.ofNibble encoding.formatBits.toNat

def application (encoding : Encoding) : Option Application :=
  Application.ofBits encoding.applicationBits.toNat

/-- The same format, relative to nothing. -/
def valueOnly (encoding : Encoding) : Encoding := ⟨encoding.formatBits⟩

def size (encoding : Encoding) : Option Nat := encoding.format.bind Format.size

/-- The encoding in words; a part without a name shows as a question mark. -/
def describe (encoding : Encoding) : String :=
  if encoding.isAbsent then "omit"
  else
    let application := (encoding.application.map Application.name).getD "?"
    let format := (encoding.format.map Format.name).getD "?"
    let indirect := if encoding.isIndirect then " | indirect" else ""
    application ++ " | " ++ format ++ indirect

/-- The address that stored values are relative to, for a field at `field`. -/
def base (encoding : Encoding) (bases : Bases) (field : Word) : Except MemoryError Word :=
  let known (base : Option Word) : Except MemoryError Word :=
    match base with
    | some address => .ok address
    | none => .error (.missingBase encoding.byte)
  match encoding.application with
  | some .absolute => .ok 0
  | some .field => .ok field
  | some .text => known bases.text
  | some .data => known bases.data
  | some .function => known bases.function
  | some .aligned | none => .error (.unsupportedEncoding encoding.byte)

end Encoding

namespace Reading

/-- Reads a pointer. The value is consumed before its base is looked up, so a
missing base leaves the position behind the value. -/
def encodedPointer (encoding : Encoding) (bases : Bases) : Reading MemoryError Word := do
  let field ← pos
  let some format := encoding.format | throw (.unsupportedEncoding encoding.byte)
  let value ← format.read
  let base ← fetch fun _ => encoding.base bases field
  let target := value + base
  if encoding.isIndirect then fetch fun space => space.pointer target
  else return target

end Reading

end Unwinding
