import Unwinding.Memory

/-!
# Registered functions

Instead of describing its frame in tables, a function with a landing pad can
register itself on entry and take itself off the list on exit. The list is a
stack: only its top can be taken off, so a handle is also a depth.
-/

namespace Unwinding

/-- The registration of one function. -/
structure FunctionContext where
  /-- The number of the call site, or of the landing pad when resuming. -/
  resumeLocation : UInt32
  /-- What the landing pad is handed. -/
  parameters : Vector Word 4
  personality : Option Word
  lsda : Word
  jumpBuffer : Vector Word 5
  deriving Repr, DecidableEq

inductive RegistrationError where
  | notOnTop (popped : Nat) (top : Option Nat)
  | unknown (handle : Nat)
  deriving Repr, DecidableEq

def RegistrationError.name : RegistrationError → String
  | notOnTop .. => "NotOnTop"
  | unknown .. => "Unknown"

def RegistrationError.message : RegistrationError → String
  | notOnTop popped top =>
    let top :=
      match top with
      | some depth => s!"Some({depth})"
      | none => "None"
    s!"unregistered function context {popped} while {top} is on top"
  | unknown handle => s!"no function context {handle}"

/-- The registered functions of one thread, the outermost first. -/
structure ContextStack where
  contexts : List FunctionContext
  deriving Repr, DecidableEq

namespace ContextStack

def empty : ContextStack := ⟨[]⟩

def length (stack : ContextStack) : Nat := stack.contexts.length

/-- The handle of the innermost function. -/
def top (stack : ContextStack) : Option Nat :=
  match stack.length with
  | 0 => none
  | depth + 1 => some depth

def push (stack : ContextStack) (context : FunctionContext) : ContextStack :=
  ⟨stack.contexts ++ [context]⟩

def get (stack : ContextStack) (handle : Nat) : Except RegistrationError FunctionContext :=
  match stack.contexts[handle]? with
  | some context => .ok context
  | none => .error (.unknown handle)

/-- Takes the innermost function off, which must be the one named. -/
def pop (stack : ContextStack) (handle : Nat) :
    Except RegistrationError (FunctionContext × ContextStack) :=
  if stack.top = some handle then do
    return (← stack.get handle, ⟨stack.contexts.take handle⟩)
  else .error (.notOnTop handle stack.top)

/-- Leaves only the `count` outermost functions. -/
def truncate (stack : ContextStack) (count : Nat) : ContextStack := ⟨stack.contexts.take count⟩

/-- Changes the registration of one function. -/
def modify (stack : ContextStack) (handle : Nat) (f : FunctionContext → FunctionContext) :
    ContextStack :=
  ⟨stack.contexts.modify handle f⟩

end ContextStack

end Unwinding
