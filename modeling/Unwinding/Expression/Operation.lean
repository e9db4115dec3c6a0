import Unwinding.Reading.Leb128
import Unwinding.RegisterFile

/-!
# Operations of location expressions

An opcode stands for one operation, and an operation says which operands
follow it in the code. The arithmetic is that of 64-bit words; where the sign
matters, a word is read in two's complement.
-/

namespace Unwinding

/-- Why an expression has no value. -/
inductive ExpressionError where
  | memory (error : MemoryError)
  | register (error : RegisterError)
  | stackOverflow
  | stackUnderflow (opcode : UInt8)
  | emptyStack
  | divisionByZero
  | unknownOpcode (opcode : UInt8)
  /-- The operation has a meaning elsewhere, but none in rules. -/
  | unsupported (opcode : UInt8)
  | branchOutOfRange (target : Word)
  | tooManySteps
  | badDerefSize (size : UInt8)
  deriving Repr, DecidableEq

def ExpressionError.name : ExpressionError → String
  | memory error => "Memory." ++ error.name
  | register error => "Register." ++ error.name
  | stackOverflow => "StackOverflow"
  | stackUnderflow .. => "StackUnderflow"
  | emptyStack => "EmptyStack"
  | divisionByZero => "DivisionByZero"
  | unknownOpcode .. => "UnknownOpcode"
  | unsupported .. => "Unsupported"
  | branchOutOfRange .. => "BranchOutOfRange"
  | tooManySteps => "TooManySteps"
  | badDerefSize .. => "BadDerefSize"

def ExpressionError.message : ExpressionError → String
  | memory error => error.message
  | register error => error.message
  | stackOverflow => "expression stack overflow"
  | stackUnderflow opcode => s!"{Hex.byte opcode} needs more values than are on the stack"
  | emptyStack => "expression left an empty stack"
  | divisionByZero => "division by zero"
  | unknownOpcode opcode => s!"unknown expression opcode {Hex.byte opcode}"
  | unsupported opcode => s!"expression opcode {Hex.byte opcode} is not supported in CFI"
  | branchOutOfRange target => s!"branch to {Hex.word target} leaves the expression"
  | tooManySteps => "expression ran for more than 10000 operations"
  | badDerefSize size => s!"{size} is not a valid dereference size"

/-- How a constant is written behind its opcode. -/
inductive Constant where
  | pointer
  | unsigned8
  | signed8
  | unsigned16
  | signed16
  | unsigned32
  | signed32
  | unsigned64
  | signed64
  | unsignedLeb
  | signedLeb
  deriving Repr, DecidableEq

/-- Reads a constant, extending signed ones to the word. -/
def Constant.read : Constant → Reading MemoryError Word
  | pointer => Reading.pointer
  | unsigned8 => return (← Reading.u8).toUInt64
  | signed8 => return (← Reading.i8).toInt64.toUInt64
  | unsigned16 => return (← Reading.u16).toUInt64
  | signed16 => return (← Reading.i16).toInt64.toUInt64
  | unsigned32 => return (← Reading.u32).toUInt64
  | signed32 => return (← Reading.i32).toInt64.toUInt64
  | unsigned64 => Reading.u64
  | signed64 => return (← Reading.i64).toUInt64
  | unsignedLeb => Reading.uleb128
  | signedLeb => return (← Reading.sleb128).toUInt64

/-- Operations that replace the top of the stack. -/
inductive UnaryOp where
  | abs
  | neg
  | complement
  deriving Repr, DecidableEq

def UnaryOp.apply : UnaryOp → Word → Word
  | abs, value => if value.toInt64 < 0 then -value else value
  | neg, value => -value
  | complement, value => ~~~value

/-- Operations that replace the two topmost values. -/
inductive BinaryOp where
  | and
  | div
  | minus
  | mod
  | mul
  | or
  | plus
  | shl
  | shr
  | shra
  | xor
  | eq
  | ge
  | gt
  | le
  | lt
  | ne
  deriving Repr, DecidableEq

namespace BinaryOp

/-- One for true and zero for false. -/
def truth (holds : Bool) : Word := if holds then 1 else 0

/-- The places to shift by, if they are fewer than a word has. Only the low
half of the count is looked at. -/
def places (count : Word) : Option Word :=
  let low := count.toUInt32
  if low < 64 then some low.toUInt64 else none

/-- `second` is the value that was pushed first. Comparisons and division are
signed, the remainder is not. -/
def apply (op : BinaryOp) (second top : Word) : Except ExpressionError Word :=
  let s := second.toInt64
  let t := top.toInt64
  match op with
  | and => .ok (second &&& top)
  | or => .ok (second ||| top)
  | xor => .ok (second ^^^ top)
  | plus => .ok (second + top)
  | minus => .ok (second - top)
  | mul => .ok (second * top)
  | div => if top = 0 then .error .divisionByZero else .ok (s / t).toUInt64
  | mod => if top = 0 then .error .divisionByZero else .ok (second % top)
  | shl =>
    match places top with
    | some count => .ok (second <<< count)
    | none => .ok 0
  | shr =>
    match places top with
    | some count => .ok (second >>> count)
    | none => .ok 0
  | shra =>
    match places top with
    | some count => .ok (s >>> count.toInt64).toUInt64
    | none => .ok (if s < 0 then -1 else 0)
  | eq => .ok (truth (s == t))
  | ge => .ok (truth (decide (t ≤ s)))
  | gt => .ok (truth (decide (t < s)))
  | le => .ok (truth (decide (s ≤ t)))
  | lt => .ok (truth (decide (s < t)))
  | ne => .ok (truth (s != t))

end BinaryOp

inductive Operation where
  | constant (form : Constant)
  | literal (value : Word)
  | dup
  | drop
  | over
  | pick
  | swap
  | rot
  /-- Loads a word through the top. -/
  | deref
  /-- Loads likewise, dropping the number of an address space below the top. -/
  | spaceDeref
  | derefSize
  | spaceDerefSize
  | unary (op : UnaryOp)
  | binary (op : BinaryOp)
  /-- Adds an operand to the top. -/
  | plusConstant
  | skip
  /-- Jumps unless the top is zero. -/
  | branch
  | register (r : Register)
  | registerOperand
  /-- Pushes a register plus an operand. -/
  | based (r : Register)
  | basedOperand
  | nop
  deriving Repr, DecidableEq

def Operation.ofByte (opcode : UInt8) : Except ExpressionError Operation :=
  match opcode with
  | 0x03 => .ok (.constant .pointer)
  | 0x06 => .ok .deref
  | 0x08 => .ok (.constant .unsigned8)
  | 0x09 => .ok (.constant .signed8)
  | 0x0a => .ok (.constant .unsigned16)
  | 0x0b => .ok (.constant .signed16)
  | 0x0c => .ok (.constant .unsigned32)
  | 0x0d => .ok (.constant .signed32)
  | 0x0e => .ok (.constant .unsigned64)
  | 0x0f => .ok (.constant .signed64)
  | 0x10 => .ok (.constant .unsignedLeb)
  | 0x11 => .ok (.constant .signedLeb)
  | 0x12 => .ok .dup
  | 0x13 => .ok .drop
  | 0x14 => .ok .over
  | 0x15 => .ok .pick
  | 0x16 => .ok .swap
  | 0x17 => .ok .rot
  | 0x18 => .ok .spaceDeref
  | 0x19 => .ok (.unary .abs)
  | 0x1a => .ok (.binary .and)
  | 0x1b => .ok (.binary .div)
  | 0x1c => .ok (.binary .minus)
  | 0x1d => .ok (.binary .mod)
  | 0x1e => .ok (.binary .mul)
  | 0x1f => .ok (.unary .neg)
  | 0x20 => .ok (.unary .complement)
  | 0x21 => .ok (.binary .or)
  | 0x22 => .ok (.binary .plus)
  | 0x23 => .ok .plusConstant
  | 0x24 => .ok (.binary .shl)
  | 0x25 => .ok (.binary .shr)
  | 0x26 => .ok (.binary .shra)
  | 0x27 => .ok (.binary .xor)
  | 0x28 => .ok .branch
  | 0x29 => .ok (.binary .eq)
  | 0x2a => .ok (.binary .ge)
  | 0x2b => .ok (.binary .gt)
  | 0x2c => .ok (.binary .le)
  | 0x2d => .ok (.binary .lt)
  | 0x2e => .ok (.binary .ne)
  | 0x2f => .ok .skip
  | 0x90 => .ok .registerOperand
  | 0x91 | 0x93 => .error (.unsupported opcode)
  | 0x92 => .ok .basedOperand
  | 0x94 => .ok .derefSize
  | 0x95 => .ok .spaceDerefSize
  | 0x96 => .ok .nop
  | _ =>
    let n := opcode.toNat
    if 0x30 ≤ n ∧ n < 0x50 then .ok (.literal (UInt64.ofNat (n - 0x30)))
    else if 0x50 ≤ n ∧ n < 0x70 then .ok (.register (n - 0x50))
    else if 0x70 ≤ n ∧ n < 0x90 then .ok (.based (n - 0x70))
    else .error (.unknownOpcode opcode)

end Unwinding
