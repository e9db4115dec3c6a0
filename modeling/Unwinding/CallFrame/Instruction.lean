import Unwinding.CallFrame.Entry
import Unwinding.Expression

/-!
# Call frame instructions

The table of rules is not stored; it is written by a small program. This
module gives the instructions and decodes their stream. Operands that are
stored divided by an alignment factor come out multiplied by it.

The three most frequent instructions keep an operand in the low six bits of
the opcode; all others have a whole byte as opcode. Decoding stops behind the
first failure, since nothing says where the next instruction would begin.
-/

namespace Unwinding

inductive Instruction where
  /-- The following rules hold from this location on. -/
  | setLocation (location : Word)
  | advance (delta : Word)
  /-- The frame address is a register plus an offset. -/
  | defCfa (register : Register) (offset : Int64)
  | defCfaRegister (register : Register)
  | defCfaOffset (offset : Int64)
  | defCfaExpression (expression : Expression)
  | undefined (register : Register)
  | sameValue (register : Register)
  /-- The register is saved at an offset from the frame address. -/
  | offset (register : Register) (offset : Int64)
  /-- The register is the frame address plus an offset. -/
  | valOffset (register : Register) (offset : Int64)
  /-- The register is kept in another one. -/
  | register (register source : Register)
  /-- The register is saved where the expression says. -/
  | expression (register : Register) (expression : Expression)
  /-- The register is what the expression says. -/
  | valExpression (register : Register) (expression : Expression)
  /-- The register goes back to the rule that the initial instructions gave it. -/
  | restore (register : Register)
  | rememberState
  | restoreState
  /-- The call has this many bytes of arguments on the stack. -/
  | argsSize (size : Word)
  | negateSignState
  | windowSave
  | nop
  deriving Repr, DecidableEq

/-- What the bytes of an instruction stream depend on. -/
structure Dialect where
  codeFactor : Word
  dataFactor : Int64
  pointerEncoding : Encoding
  bases : Bases
  vendor : VendorOp
  deriving Repr, DecidableEq

/-- The dialect of the functions that share `entry`. -/
def CommonEntry.dialect (entry : CommonEntry) (bases : Bases) (arch : Arch) : Dialect :=
  ⟨entry.codeFactor, entry.dataFactor, entry.pointerEncoding, bases, arch.vendorOp⟩

namespace Instruction

def name : Instruction → String
  | setLocation _ => "SetLoc"
  | advance _ => "AdvanceLoc"
  | defCfa .. => "DefCfa"
  | defCfaRegister _ => "DefCfaRegister"
  | defCfaOffset _ => "DefCfaOffset"
  | defCfaExpression _ => "DefCfaExpression"
  | undefined _ => "Undefined"
  | sameValue _ => "SameValue"
  | offset .. => "Offset"
  | valOffset .. => "ValOffset"
  | register .. => "Register"
  | expression .. => "Expression"
  | valExpression .. => "ValExpression"
  | restore _ => "Restore"
  | rememberState => "RememberState"
  | restoreState => "RestoreState"
  | argsSize _ => "ArgsSize"
  | negateSignState => "NegateRaState"
  | windowSave => "WindowSave"
  | nop => "Nop"

/-- The location an instruction moves to. -/
def target (location : Word) : Instruction → Option Word
  | setLocation target => some target
  | advance delta => some (location + delta)
  | _ => none

def column : Reading CfiError Register := do
  let number ← Reading.uleb128
  Reading.fetch fun _ => Register.ofWord number

/-- An unsigned multiple of the data factor. -/
def factored (dialect : Dialect) : Reading CfiError Int64 :=
  return (← Reading.uleb128).toInt64 * dialect.dataFactor

/-- A signed multiple of the data factor. -/
def factoredSigned (dialect : Dialect) : Reading CfiError Int64 :=
  return (← Reading.sleb128) * dialect.dataFactor

/-- A block of code, with its length in front. -/
def block : Reading CfiError Expression := do
  let length ← Reading.uleb128
  let start ← Reading.pos
  Reading.skip length.toNat
  return ⟨start, length⟩

def operands (dialect : Dialect) (opcode : UInt8) : Reading CfiError Instruction := do
  match opcode with
  | 0x00 => return nop
  | 0x01 => return setLocation (← Reading.encodedPointer dialect.pointerEncoding dialect.bases)
  | 0x02 => return advance ((← Reading.u8).toUInt64 * dialect.codeFactor)
  | 0x03 => return advance ((← Reading.u16).toUInt64 * dialect.codeFactor)
  | 0x04 => return advance ((← Reading.u32).toUInt64 * dialect.codeFactor)
  | 0x05 => return offset (← column) (← factored dialect)
  | 0x06 => return restore (← column)
  | 0x07 => return undefined (← column)
  | 0x08 => return sameValue (← column)
  | 0x09 => return register (← column) (← column)
  | 0x0a => return rememberState
  | 0x0b => return restoreState
  | 0x0c => return defCfa (← column) (← Reading.uleb128).toInt64
  | 0x0d => return defCfaRegister (← column)
  | 0x0e => return defCfaOffset (← Reading.uleb128).toInt64
  | 0x0f => return defCfaExpression (← block)
  | 0x10 => return expression (← column) (← block)
  | 0x11 => return offset (← column) (← factoredSigned dialect)
  | 0x12 => return defCfa (← column) (← factoredSigned dialect)
  | 0x13 => return defCfaOffset (← factoredSigned dialect)
  | 0x14 => return valOffset (← column) (← factored dialect)
  | 0x15 => return valOffset (← column) (← factoredSigned dialect)
  | 0x16 => return valExpression (← column) (← block)
  | 0x2d =>
    match dialect.vendor with
    | .negateSignState => return negateSignState
    | .windowSave => return windowSave
    | .unassigned => throw (.unknownOpcode opcode)
  | 0x2e => return argsSize (← Reading.uleb128)
  | 0x2f => return offset (← column) (-(← factored dialect))
  | _ => throw (.unknownOpcode opcode)

def decode (dialect : Dialect) : Reading CfiError Instruction := do
  let opcode ← Reading.u8
  let low := opcode.toNat % 64
  match opcode.toNat / 64 with
  | 1 => return advance (UInt64.ofNat low * dialect.codeFactor)
  | 2 => return offset low (← factored dialect)
  | 3 => return restore low
  | _ => operands dialect opcode

/-- At most `left` items of the stream. -/
def itemsWithin (dialect : Dialect) (space : AddressSpace) :
    (left : Nat) → Span → List (Except CfiError Instruction)
  | 0, _ => []
  | left + 1, span =>
    if span.isEmpty then []
    else
      match decode dialect space span with
      | .ok instruction rest => .ok instruction :: itemsWithin dialect space left rest
      | .error error _ => [.error error]

/-- The instructions in `span`; a failure is the last item. Every instruction
takes a byte, so the bytes of the span bound their number. -/
def items (dialect : Dialect) (space : AddressSpace) (span : Span) :
    List (Except CfiError Instruction) :=
  itemsWithin dialect space span.remaining span

end Instruction

end Unwinding
