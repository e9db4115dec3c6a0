import Unwinding.FrameWalker

/-!
# Walking the registered functions

This walker goes through a stack of registrations from the innermost outward.
A function is known by its depth. Its context shows the call site, plus one,
as instruction pointer and the parameters as the first four registers.
Functions that are left behind are taken off the stack; resuming in one
writes the context back into its registration.
-/

namespace Unwinding

structure RegisteredWalker where
  stack : ContextStack
  /-- The current function, if the walk has come to one. -/
  position : Option Nat
  context : Context
  /-- The registration to resume with, once a function was installed. -/
  landing : Option FunctionContext
  deriving Repr, DecidableEq

namespace RegisteredWalker

def start (stack : ContextStack) : RegisteredWalker := ⟨stack, none, Context.blank, none⟩

def rewind (walker : RegisteredWalker) : RegisteredWalker :=
  { walker with position := none, landing := none }

def contextOf (function : FunctionContext) : Context :=
  { Context.blank with
    ip := function.resumeLocation.toUInt64 + 1
    lsda := function.lsda
    registers := Vector.ofFn fun (r : Fin 64) =>
      match function.parameters[r.val]? with
      | some value => .kept value
      | none => .absent }

/-- The function further out, if there is one. -/
def outward (walker : RegisteredWalker) : Option Nat :=
  match walker.position with
  | none => walker.stack.top
  | some 0 => none
  | some (depth + 1) => some depth

def next (walker : RegisteredWalker) : Except WalkError (Option WalkFrame) × RegisteredWalker :=
  match walker.outward with
  | none => (.ok none, walker)
  | some depth =>
    let walker := { walker with position := some depth }
    match walker.stack.get depth with
    | .error error => (.error (.registration error), walker)
    | .ok function =>
      (.ok (some ⟨UInt64.ofNat depth, function.personality⟩),
        { walker with context := contextOf function })

def unwoundPast (walker : RegisteredWalker) : Except WalkError Unit × RegisteredWalker :=
  match walker.position with
  | none => (.ok (), walker)
  | some depth => (.ok (), { walker with stack := walker.stack.truncate depth })

/-- A registration after the writes to its context. -/
def written (context : Context) (function : FunctionContext) : FunctionContext :=
  let resumeLocation :=
    if context.ipWritten then (context.ip - 1).toUInt32 else function.resumeLocation
  let parameters := context.writtenRegisters.foldl
    (fun parameters (r, value) => parameters.setIfInBounds r value) function.parameters
  { function with resumeLocation, parameters }

def install (walker : RegisteredWalker) : Except WalkError Unit × RegisteredWalker :=
  match walker.position with
  | none => (.error (.registration (.unknown 0)), walker)
  | some depth =>
    match walker.stack.get depth with
    | .error error => (.error (.registration error), walker)
    | .ok function =>
      let landing := written walker.context function
      let stack := (walker.stack.modify depth fun _ => landing).truncate (depth + 1)
      (.ok (), { walker with stack, landing := some landing })

instance : FrameWalker RegisteredWalker where
  rewind := rewind
  next := next
  context := (·.context)
  setContext walker context := { walker with context }
  unwoundPast := unwoundPast
  install := install

end RegisteredWalker

end Unwinding
