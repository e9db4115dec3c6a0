import Unwinding.CallFrame.Machine
import Unwinding.Compact.Decode
import Unwinding.Expression.Machine

/-!
# Restoring the caller's registers

A row is applied to the registers of the callee and gives those of the
caller. Every rule looks at the callee's registers and at the frame address
only, so a rule never sees what another one restored. The return address
becomes the instruction pointer, after its signature is taken off and the
length of the call is added.
-/

namespace Unwinding

/-- Why a frame cannot be left. -/
inductive StepError where
  | cfi (error : CfiError)
  | expression (error : ExpressionError)
  | memory (error : MemoryError)
  | register (error : RegisterError)
  | compact (error : CompactError)
  | unresolvableCfa
  /-- The class of the register has no such rule. -/
  | unsupportedRule (register : Register) (rule : Rule)
  /-- The rules are in a frame entry, but the section of those is not known. -/
  | deferred (offset : Nat)
  | noUnwindInfo
  deriving Repr, DecidableEq

/-- The two classes of failure that are told apart outside. -/
inductive StepFailure where
  | badRegister
  | badFrame
  deriving Repr, DecidableEq

def StepFailure.code : StepFailure → Int
  | badRegister => -6542
  | badFrame => -6546

def StepFailure.name : StepFailure → String
  | badRegister => "BadRegister"
  | badFrame => "BadFrame"

namespace StepError

def name : StepError → String
  | cfi error => "Cfi." ++ error.name
  | expression error => "Expr." ++ error.name
  | memory error => "Memory." ++ error.name
  | register error => "Register." ++ error.name
  | compact error => "Compact." ++ error.name
  | unresolvableCfa => "UnresolvableCfa"
  | unsupportedRule .. => "UnsupportedRule"
  | deferred .. => "DwarfEscape"
  | noUnwindInfo => "NoUnwindInfo"

def message : StepError → String
  | cfi error => error.message
  | expression error => error.message
  | memory error => error.message
  | register error => error.message
  | compact error => error.message
  | unresolvableCfa => "the CFA rule is undefined"
  | unsupportedRule r rule => s!"rule {rule.describe} can't restore {Register.name r}"
  | deferred offset =>
    "compact encoding defers to the FDE at .eh_frame+0x" ++ Hex.digits offset
  | noUnwindInfo => "the function has no unwind information"

def failure : StepError → StepFailure
  | register _ | unsupportedRule .. => .badRegister
  | cfi (.badRegister _) => .badRegister
  | expression (.register _) => .badRegister
  | _ => .badFrame

end StepError

instance : MonadLift (Except CfiError) (Except StepError) := ⟨Except.mapError .cfi⟩

instance : MonadLift (Except ExpressionError) (Except StepError) := ⟨Except.mapError .expression⟩

instance : MonadLift (Except MemoryError) (Except StepError) := ⟨Except.mapError .memory⟩

instance : MonadLift (Except RegisterError) (Except StepError) := ⟨Except.mapError .register⟩

instance : MonadLift (Except CompactError) (Except StepError) := ⟨Except.mapError .compact⟩

variable {arch : Arch}

/-- What the rules of a row are applied to. -/
structure Callee (arch : Arch) where
  space : AddressSpace
  file : RegisterFile arch
  /-- The frame address. -/
  cfa : Word

namespace Callee

/-- The address at an offset from the frame address. -/
def offset (callee : Callee arch) (offset : Int64) : Word := callee.cfa + offset.toUInt64

/-- The value of an expression that starts from the frame address. -/
def evaluate (callee : Callee arch) (code : Expression) : Except ExpressionError Word :=
  code.evaluate callee.space callee.file callee.cfa

/-- The value that a rule gives to integer register `r`. -/
def integer (callee : Callee arch) (r : Register) : Rule → Except StepError Word
  | .unused => callee.file.get r
  | .undefined => return 0
  | .inRegister source => callee.file.get source
  | .inCfa n => callee.space.pointer (callee.offset n)
  | .inCfaDecrypted n => do
    return (← callee.space.pointer (callee.offset n)) ^^^ callee.file.cookie
  | .atExpression code => do callee.space.pointer (← callee.evaluate code)
  | .isExpression code => callee.evaluate code
  | .offsetFromCfa n => return callee.offset n

/-- The value that a rule gives to floating-point register `r`. -/
def float (callee : Callee arch) (r : Register) : Rule → Except StepError UInt64
  | .unused => callee.file.getFloat r
  | .undefined => return 0
  | .inRegister source => callee.file.getFloat source
  | .inCfa n => callee.space.get64 (callee.offset n)
  | .atExpression code => do callee.space.get64 (← callee.evaluate code)
  | rule => throw (.unsupportedRule r rule)

/-- The value that a rule gives to vector register `r`. -/
def vector (callee : Callee arch) (r : Register) : Rule → Except StepError (BitVec 128)
  | .unused => callee.file.getVector r
  | .undefined => return 0
  | .inRegister source => callee.file.getVector source
  | .inCfa n => callee.space.get128 (callee.offset n)
  | .atExpression code => do callee.space.get128 (← callee.evaluate code)
  | rule => throw (.unsupportedRule r rule)

/-- Writes the value that `rule` gives to register `r`. -/
def restore (callee : Callee arch) (new : RegisterFile arch) (r : Register) (rule : Rule) :
    Except StepError (RegisterFile arch) := do
  match arch.registerClass r with
  | some .integer => new.set r (← callee.integer r rule)
  | some .float => new.setFloat r (← callee.float r rule)
  | some .vector => new.setVector r (← callee.vector r rule)
  | none => throw (.unsupportedRule r rule)

end Callee

namespace Row

/-- The frame address. -/
def frameAddress (row : Row) (space : AddressSpace) (file : RegisterFile arch) :
    Except StepError Word :=
  match row.cfa with
  | .registerOffset r n => do return (← file.get r) + n.toUInt64
  | .expression code => code.evaluate space file 0
  | .undefined => .error .unresolvableCfa

/-- The registers that the row changes on `arch`, with their rules. -/
def restored (row : Row) (arch : Arch) : List (Register × Rule) :=
  arch.columns.filterMap fun r =>
    if r = row.returnAddress ∨ row.rule r = .unused then none else some (r, row.rule r)

/-- The address at which the caller goes on. A return address without a rule
is still where the call left it. -/
def returnTarget (row : Row) (callee : Callee arch) : Except StepError Word := do
  let address ← callee.integer row.returnAddress (row.rule row.returnAddress)
  return arch.adjustReturnAddress (callee.file.authenticate address row.raSigned)

/-- The caller's registers. A caller at address zero has no instruction to
look at. -/
def apply (row : Row) (space : AddressSpace) (file : RegisterFile arch) :
    Except StepError (RegisterFile arch) := do
  let cfa ← row.frameAddress space file
  let callee : Callee arch := ⟨space, file, cfa⟩
  let new ← (row.restored arch).foldlM (fun new (r, rule) => callee.restore new r rule)
    (file.setSp cfa)
  let target ← row.returnTarget callee
  let new := new.setIp target
  if target = 0 then return new else new.repair space

end Row

/-- Where the rules of a function are. -/
inductive Location where
  | entry (address : Word) (bases : Bases)
  | compact (encoding : CompactEncoding) (functionStart : Word)
  deriving Repr, DecidableEq

def Location.row (location : Location) (arch : Arch) (space : AddressSpace) (pc : Word) :
    Except StepError Row := do
  match location with
  | .entry address bases => return (← FrameEntry.rowAt arch space bases address pc).1
  | .compact encoding functionStart =>
    match ← encoding.decode arch space functionStart with
    | .row row => return row
    | .deferred offset => throw (.deferred offset)
    | .none => throw .noUnwindInfo

/-- The caller of a frame. -/
structure Caller (arch : Arch) where
  file : RegisterFile arch
  /-- The frame that was left had been entered by a signal. -/
  signalFrame : Bool
  deriving Repr, DecidableEq

/-- Leaves the frame that executes at `pc`. -/
def Location.step (location : Location) (space : AddressSpace) (pc : Word)
    (file : RegisterFile arch) : Except StepError (Caller arch) := do
  let row ← location.row arch space pc
  return ⟨← row.apply space file, row.signalFrame⟩

end Unwinding
