import Unwinding.Memory

/-!
# What routines see of a frame

A routine of the language runtime gets a context: a copy of what is known
about one frame. It may write registers and the instruction pointer; the
writes are kept in the context and take effect only if the frame is resumed.
-/

namespace Unwinding

/-- A register in a context. Only registers the frame has can be written. -/
inductive ContextRegister where
  | absent
  | kept (value : Word)
  | written (value : Word)
  deriving Repr, DecidableEq

namespace ContextRegister

def value : ContextRegister → Option Word
  | absent => none
  | kept value | written value => some value

def write (new : Word) : ContextRegister → ContextRegister
  | absent => absent
  | kept _ | written _ => written new

end ContextRegister

structure Context where
  ip : Word
  cfa : Word
  /-- Language data, zero for none. -/
  lsda : Word
  /-- Where the function starts. -/
  regionStart : Word
  /-- The bytes of arguments that are taken off the stack on landing. -/
  argsSize : Word
  /-- The instruction pointer is exact and no return address. -/
  signalFrame : Bool
  registers : Vector ContextRegister 64
  ipWritten : Bool
  deriving Repr, DecidableEq

namespace Context

/-- The context of no frame. -/
def blank : Context where
  ip := 0
  cfa := 0
  lsda := 0
  regionStart := 0
  argsSize := 0
  signalFrame := false
  registers := Vector.replicate 64 .absent
  ipWritten := false

def register? (context : Context) (index : Nat) : Option Word :=
  context.registers[index]?.bind ContextRegister.value

/-- Writes register `index`, answering whether the frame has it. -/
def writeRegister (context : Context) (index : Nat) (value : Word) : Bool × Context :=
  match context.registers[index]? with
  | none | some .absent => (false, context)
  | some register =>
    (true, { context with
      registers := context.registers.setIfInBounds index (register.write value) })

/-- The value of a register by any number, zero where there is none. -/
def registerD (context : Context) : (index : Int) → Word
  | .ofNat index => (context.register? index).getD 0
  | .negSucc _ => 0

/-- Writes a register by any number. A number without a register is ignored. -/
def overwrite (context : Context) : (index : Int) → (value : Word) → Context
  | .ofNat index, value => (context.writeRegister index value).2
  | .negSucc _, _ => context

def writeIp (context : Context) (address : Word) : Context :=
  { context with ip := address, ipWritten := true }

/-- The registers that were written, in ascending order, with their last values. -/
def writtenRegisters (context : Context) : List (Nat × Word) :=
  context.registers.toList.zipIdx.filterMap fun (register, index) =>
    match register with
    | .written value => some (index, value)
    | _ => none

end Context

end Unwinding
