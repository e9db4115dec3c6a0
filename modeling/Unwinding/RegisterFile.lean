import Unwinding.Architecture

/-!
# The registers of one frame

A register file holds the integer, floating-point and vector registers of one
frame and its instruction pointer. Numbers reach the storage only through the
architecture's slots; a number of the wrong class is refused.
-/

namespace Unwinding

/-- The number does not name a register of the class. -/
structure RegisterError where
  register : Register
  expected : RegisterClass
  arch : Arch
  deriving Repr, DecidableEq

def RegisterError.name (_ : RegisterError) : String := "BadRegister"

def RegisterError.message (error : RegisterError) : String :=
  s!"{error.register.name} is not a {error.expected.name} register on {error.arch.name}"

structure RegisterFile (arch : Arch) where
  integers : Vector Word 40
  floats : Vector UInt64 32
  vectors : Vector (BitVec 128) 32
  ip : Word
  deriving Repr, DecidableEq

namespace RegisterFile

variable {arch : Arch}

def zero : RegisterFile arch :=
  ⟨Vector.replicate 40 0, Vector.replicate 32 0, Vector.replicate 32 0, 0⟩

/-- The integer register `r`, or the instruction pointer if `r` names it. -/
def get (file : RegisterFile arch) (r : Register) : Except RegisterError Word :=
  match arch.slot r with
  | some (.integer i) => .ok file.integers[i]
  | some .ip => .ok file.ip
  | _ => .error ⟨r, .integer, arch⟩

def set (file : RegisterFile arch) (r : Register) (value : Word) :
    Except RegisterError (RegisterFile arch) :=
  match arch.slot r with
  | some (.integer i) => .ok { file with integers := file.integers.set i value }
  | some .ip => .ok { file with ip := value }
  | _ => .error ⟨r, .integer, arch⟩

/-- The raw bits of the floating-point register `r`. -/
def getFloat (file : RegisterFile arch) (r : Register) : Except RegisterError UInt64 :=
  match arch.slot r with
  | some (.float i) => .ok file.floats[i]
  | _ => .error ⟨r, .float, arch⟩

def setFloat (file : RegisterFile arch) (r : Register) (bits : UInt64) :
    Except RegisterError (RegisterFile arch) :=
  match arch.slot r with
  | some (.float i) => .ok { file with floats := file.floats.set i bits }
  | _ => .error ⟨r, .float, arch⟩

def getVector (file : RegisterFile arch) (r : Register) : Except RegisterError (BitVec 128) :=
  match arch.slot r with
  | some (.vector i) => .ok file.vectors[i]
  | _ => .error ⟨r, .vector, arch⟩

def setVector (file : RegisterFile arch) (r : Register) (bits : BitVec 128) :
    Except RegisterError (RegisterFile arch) :=
  match arch.slot r with
  | some (.vector i) => .ok { file with vectors := file.vectors.set i bits }
  | _ => .error ⟨r, .vector, arch⟩

def setIp (file : RegisterFile arch) (address : Word) : RegisterFile arch :=
  { file with ip := address }

/-- The value of integer register `r`, zero where there is none. -/
def getD (file : RegisterFile arch) (r : Register) : Word := (file.get r).toOption.getD 0

/-- The file with integer register `r` changed, if there is one. -/
def update (file : RegisterFile arch) (r : Register) (value : Word) : RegisterFile arch :=
  (file.set r value).toOption.getD file

/-- The stack pointer. -/
def sp (file : RegisterFile arch) : Word := file.getD arch.sp

def setSp (file : RegisterFile arch) (address : Word) : RegisterFile arch :=
  file.update arch.sp address

/-- The frame pointer. -/
def fp (file : RegisterFile arch) : Word := file.getD arch.fp

/-- The mask that spilled register windows are combined with. -/
def cookie (file : RegisterFile arch) : Word :=
  match arch with
  | .sparc64 => file.getD Arch.windowCookie
  | _ => 0

/-- The return address without its signature. It carries one if the row says
so or if the low bit of the sign state is set, and the signature occupies the
bits above a 48-bit address. -/
def authenticate (file : RegisterFile arch) (address : Word) (signed : Bool) : Word :=
  match arch with
  | .aarch64 =>
    if signed ∨ file.getD Arch.signState &&& 1 ≠ 0 then address &&& 0xffffffffffff else address
  | _ => address

/-- Where the caller reloads its table pointer after a call: the instruction
behind the call is a load from one of two stack slots. -/
def reloadOffset : UInt32 → Option Word
  | 0xe8410018 => some 24
  | 0xe8410028 => some 40
  | _ => none

/-- Brings back the registers that tables leave out, by looking at the
instruction the caller goes on with. -/
def repair (file : RegisterFile arch) (space : AddressSpace) :
    Except MemoryError (RegisterFile arch) :=
  match arch with
  | .ppc64 => do
    match reloadOffset (← space.get32 file.ip) with
    | some offset => return file.update 2 (← space.pointer (file.sp + offset))
    | none => return file
  | _ => .ok file

/-- The integer registers among `numbers` that are not zero. -/
def nonzeroIntegers (file : RegisterFile arch) (numbers : List Register) :
    List (Register × Word) :=
  numbers.filterMap fun r =>
    match arch.slot r with
    | some (.integer i) => if file.integers[i] = 0 then none else some (r, file.integers[i])
    | _ => none

def nonzeroFloats (file : RegisterFile arch) (numbers : List Register) :
    List (Register × UInt64) :=
  numbers.filterMap fun r =>
    match arch.slot r with
    | some (.float i) => if file.floats[i] = 0 then none else some (r, file.floats[i])
    | _ => none

def nonzeroVectors (file : RegisterFile arch) (numbers : List Register) :
    List (Register × BitVec 128) :=
  numbers.filterMap fun r =>
    match arch.slot r with
    | some (.vector i) => if file.vectors[i] = 0 then none else some (r, file.vectors[i])
    | _ => none

/-- The file with these values and zero everywhere else. -/
def ofValues (ip : Word) (integers : List (Register × Word)) (floats : List (Register × UInt64))
    (vectors : List (Register × BitVec 128)) : Except RegisterError (RegisterFile arch) := do
  let file ← integers.foldlM (fun file (r, value) => file.set r value) RegisterFile.zero
  let file ← floats.foldlM (fun file (r, value) => file.setFloat r value) file
  let file ← vectors.foldlM (fun file (r, value) => file.setVector r value) file
  return file.setIp ip

/-- The file in one line: its architecture, the instruction pointer and the
integer registers that are not zero. -/
def describe (file : RegisterFile arch) : String :=
  let entries := ("\"arch\": " ++ arch.name) :: ("\"ip\": " ++ Hex.word file.ip) ::
    (file.nonzeroIntegers arch.columns).map fun (r, value) => s!"Register({r}): {Hex.word value}"
  "\x7b" ++ ", ".intercalate entries ++ "\x7d"

end RegisterFile

end Unwinding
