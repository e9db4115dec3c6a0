import Unwinding.Routine.Script

/-!
# The stack of a running thread

The functions that are running form a chain. The outermost is the root, the
innermost a leaf, and between them are functions of a few kinds. Where their
code and their frames lie does not matter as long as the places differ, so
both are laid out in equal distances by the depth of a function.
-/

namespace Unwinding

/-- A function between the root and the leaf. -/
inductive FrameKind where
  /-- Has no personality. -/
  | plain
  | first
  | second
  /-- Makes its call with arguments on the stack. -/
  | arguments
  /-- Was interrupted by a signal. -/
  | signal
  deriving Repr, DecidableEq

namespace FrameKind

def all : List FrameKind := [plain, first, second, arguments, signal]

/-- The number of a kind, and of the personality of its functions. -/
def number : FrameKind → Nat
  | plain => 0
  | first => 1
  | second => 2
  | arguments => 3
  | signal => 4

def personality : FrameKind → Option Word
  | plain => none
  | kind => some (Script.Name.personalityAddress kind.number)

/-- The language data of the kinds that have any. -/
def lsda : FrameKind → Option UInt8
  | first => some 1
  | second => some 2
  | _ => none

/-- The bytes of arguments at the call. -/
def argsSize : FrameKind → Word
  | arguments => 16
  | _ => 0

end FrameKind

/-- A running function, with `depth` others around it. The two ends of the
stack have no kind. -/
structure ChainFrame where
  depth : Nat
  kind : Option FrameKind
  /-- It has come to its landing pad. -/
  atPad : Bool
  deriving Repr, DecidableEq

namespace ChainFrame

variable (frame : ChainFrame)

/-- The position of a function between the two ends, from the outermost. -/
def index : Option Nat := frame.kind.map fun _ => frame.depth - 1

/-- The number of the kind, or which end of the stack it is. -/
def name : String :=
  match frame.kind with
  | some kind => toString kind.number
  | none => if frame.depth = 0 then "root" else "leaf"

def start : Word := 0x1000 + 16 * UInt64.ofNat frame.depth

/-- Where it goes on after its call. -/
def callSite : Word := frame.start + 1

def landingPad : Word := frame.start + 2

/-- Where it goes on after a call made from its landing pad. -/
def padSite : Word := frame.start + 3

def ip : Word := if frame.atPad then frame.padSite else frame.callSite

/-- The end of the frame that lies further out. -/
def base : Word := 0x70000000 - 64 * UInt64.ofNat frame.depth

/-- The bytes of arguments on the stack. Landing takes them off. -/
def argsSize : Word := if frame.atPad then 0 else (frame.kind.map (·.argsSize)).getD 0

/-- The stack pointer: a function keeps 16 bytes besides its arguments. -/
def sp : Word := frame.base - 16 - frame.argsSize

def lsda : Option UInt8 := frame.kind.bind (·.lsda)

def personality : Option Word := frame.kind.bind (·.personality)

def isSignal : Bool := frame.kind == some .signal

/-- What routines see of the function. Its registers hold nothing of interest. -/
def context : Context where
  ip := frame.ip
  cfa := frame.sp
  lsda := (frame.lsda.getD 0).toUInt64
  regionStart := frame.start
  argsSize := frame.argsSize
  signalFrame := frame.isSignal
  registers := Vector.ofFn fun (r : Fin 64) => if r < 17 then .kept 0 else .absent
  ipWritten := false

end ChainFrame

/-- The functions on a stack, the innermost first. -/
abbrev Chain := List ChainFrame

namespace Chain

/-- The stack with functions of these kinds, the outermost first. -/
def ofKinds (kinds : List FrameKind) : Chain :=
  let root : ChainFrame := ⟨0, none, false⟩
  let leaf : ChainFrame := ⟨kinds.length + 1, none, false⟩
  let between := kinds.zipIdx.map fun (kind, i) => ⟨i + 1, some kind, false⟩
  (root :: between ++ [leaf]).reverse

/-- What is left of the stack when the function at `depth` has landed. -/
def landed (chain : Chain) (depth : Nat) : Chain :=
  (chain.filter (·.depth ≤ depth)).map fun frame =>
    if frame.depth = depth then { frame with atPad := true } else frame

/-- The function that a context belongs to. -/
def find (chain : Chain) (context : Context) : Option ChainFrame :=
  List.find? (·.start == context.regionStart) chain

end Chain

end Unwinding
