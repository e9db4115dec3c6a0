import Unwinding.Expression
import Unwinding.Expression.Operation
import Unwinding.Expression.Stack

/-!
# The stack machine of location expressions

The machine starts with one value on its stack and answers with the value on
top when it meets the end of the code. The stack holds a fixed number of
values and a run takes a fixed number of operations, so that every run ends;
a branch must stay inside the code.

Operands are consumed where the operation asks for them, which decides the
error when both the stack and the code are too short.
-/

namespace Unwinding

/-- The position in the code, and the stack. -/
structure StackMachine where
  pos : Word
  stack : ValueStack
  deriving Repr, DecidableEq

namespace StackMachine

/-- How many operations a run may take. -/
def budget : Nat := 10000

/-- What a run works on. -/
structure Setting (arch : Arch) where
  space : AddressSpace
  file : RegisterFile arch
  code : Expression

abbrev Run := StateT StackMachine (Except ExpressionError)

variable {arch : Arch} {α : Type}

def push (value : Word) : Run Unit := do
  let machine ← get
  match machine.stack.push value with
  | some stack => set { machine with stack }
  | none => throw .stackOverflow

def pop (opcode : UInt8) : Run Word := do
  let machine ← get
  match machine.stack.pop with
  | some (value, stack) => do
    set { machine with stack }
    return value
  | none => throw (.stackUnderflow opcode)

/-- The value `depth` places below the top. -/
def peek (opcode : UInt8) (depth : Nat) : Run Word := do
  match (← get).stack.peek depth with
  | some value => return value
  | none => throw (.stackUnderflow opcode)

/-- Decodes an operand from the code. -/
def operand (setting : Setting arch) (read : Reading MemoryError α) : Run α := do
  let machine ← get
  match read setting.space ⟨machine.pos, setting.code.stop⟩ with
  | .ok value span => do
    set { machine with pos := span.pos }
    return value
  | .error error _ => throw (.memory error)

/-- Loads from memory through the address space. -/
def load (access : Except MemoryError α) : Run α :=
  match access with
  | .ok value => return value
  | .error error => throw (.memory error)

def readRegister (setting : Setting arch) (r : Register) : Run Word :=
  match setting.file.get r with
  | .ok value => return value
  | .error error => throw (.register error)

/-- A register number from the code. One that does not fit 16 bits names no
register, as the largest that does. -/
def registerNumber (value : Word) : Register := min value.toNat 65535

/-- Moves by a signed distance. The end of the code is still inside. -/
def jump (setting : Setting arch) (distance : Int16) : Run Unit := do
  let machine ← get
  let target := machine.pos + distance.toInt64.toUInt64
  if setting.code.start ≤ target ∧ target ≤ setting.code.stop then
    set { machine with pos := target }
  else throw (.branchOutOfRange target)

def loadSized (setting : Setting arch) (size : UInt8) (address : Word) : Run Word := do
  match size with
  | 1 => return (← load (setting.space.get8 address)).toUInt64
  | 2 => return (← load (setting.space.get16 address)).toUInt64
  | 4 => return (← load (setting.space.get32 address)).toUInt64
  | 8 => load (setting.space.get64 address)
  | _ => throw (.badDerefSize size)

def execute (setting : Setting arch) (opcode : UInt8) : Operation → Run Unit
  | .constant form => do push (← operand setting form.read)
  | .literal value => push value
  | .dup => do push (← peek opcode 0)
  | .drop => do let _ ← pop opcode
  | .over => do push (← peek opcode 1)
  | .pick => do
    let depth ← operand setting Reading.u8
    push (← peek opcode depth.toNat)
  | .swap => do
    let top ← pop opcode
    let second ← pop opcode
    push top
    push second
  | .rot => do
    let top ← pop opcode
    let second ← pop opcode
    let third ← pop opcode
    push top
    push third
    push second
  | .deref => do
    let address ← pop opcode
    push (← load (setting.space.pointer address))
  | .spaceDeref => do
    let address ← pop opcode
    let _ ← pop opcode
    push (← load (setting.space.pointer address))
  | .derefSize => do
    let size ← operand setting Reading.u8
    let address ← pop opcode
    push (← loadSized setting size address)
  | .spaceDerefSize => do
    let size ← operand setting Reading.u8
    let address ← pop opcode
    let _ ← pop opcode
    push (← loadSized setting size address)
  | .unary op => do push (op.apply (← pop opcode))
  | .binary op => do
    let top ← pop opcode
    let second ← pop opcode
    push (← liftM (op.apply second top))
  | .plusConstant => do
    let value ← pop opcode
    push (value + (← operand setting Reading.uleb128))
  | .skip => do jump setting (← operand setting Reading.i16)
  | .branch => do
    let distance ← operand setting Reading.i16
    if (← pop opcode) ≠ 0 then jump setting distance
  | .register r => do push (← readRegister setting r)
  | .registerOperand => do
    let r := registerNumber (← operand setting Reading.uleb128)
    push (← readRegister setting r)
  | .based r => do
    let base ← readRegister setting r
    push (base + (← operand setting Reading.sleb128).toUInt64)
  | .basedOperand => do
    let r := registerNumber (← operand setting Reading.uleb128)
    let base ← readRegister setting r
    push (base + (← operand setting Reading.sleb128).toUInt64)
  | .nop => return

def step (setting : Setting arch) : Run Unit := do
  let opcode ← operand setting Reading.u8
  let operation ← liftM (Operation.ofByte opcode)
  execute setting opcode operation

/-- Runs to the end of the code in at most `left` operations. -/
def run (setting : Setting arch) : (left : Nat) → StackMachine →
    Except ExpressionError StackMachine
  | left, machine =>
    if setting.code.stop ≤ machine.pos then .ok machine
    else
      match left with
      | 0 => .error .tooManySteps
      | left + 1 => do
        let (_, machine) ← (step setting).run machine
        run setting left machine

end StackMachine

/-- The value of an expression whose stack starts with `initial`. -/
def Expression.evaluate {arch : Arch} (code : Expression) (space : AddressSpace)
    (file : RegisterFile arch) (initial : Word) : Except ExpressionError Word := do
  let some stack := ValueStack.empty.push initial | throw .stackOverflow
  let machine ← StackMachine.run ⟨space, file, code⟩ StackMachine.budget ⟨code.start, stack⟩
  match machine.stack.pop with
  | some (value, _) => return value
  | none => throw .emptyStack

end Unwinding
