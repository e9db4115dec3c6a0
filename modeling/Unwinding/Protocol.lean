import Unwinding.FrameWalker

/-!
# Two-phase exception propagation

The first phase walks outward and asks every personality routine whether its
frame handles the exception, without touching the stack. The second walks the
same frames again, lets them clean up, and hands control to the handler. A
forced unwind has only the second phase, and a stop function sees each frame
before its personality does.

A walk can go on for ever. Its budget bounds the frames it visits, and an
operation that uses it up has no result.
-/

namespace Unwinding

/-- Where an unwind is in the protocol. -/
inductive Phase where
  | searching
  | handlerFound (frame : Word)
  | cleaningUp
  | complete
  | noHandler
  | fatalError
  deriving Repr, DecidableEq

/-- The state of an unwind. -/
structure Unwind (W ω : Type) where
  walker : W
  phase : Phase
  /-- Why a walk last failed to step past a frame. -/
  failure : Option StepFailure
  exception : Exception
  /-- The state of the routines. -/
  world : ω

namespace Unwind

variable {W ω α : Type} [FrameWalker W]

/-- An unwind that has not begun. -/
def start (walker : W) (exception : Exception) (world : ω) : Unwind W ω :=
  ⟨walker, .searching, none, exception, world⟩

def enter (phase : Phase) (unwind : Unwind W ω) : Unwind W ω := { unwind with phase }

/-- The unwind back where the exception was raised. -/
def rewound (unwind : Unwind W ω) : Unwind W ω :=
  { unwind with walker := FrameWalker.rewind unwind.walker }

/-- The unwind of an exception with other words. -/
def marked (stop target : Word) (unwind : Unwind W ω) : Unwind W ω :=
  { unwind with exception := { unwind.exception with stop, target } }

/-- The unwind of an exception that has its handler. -/
def aimed (target : Word) (unwind : Unwind W ω) : Unwind W ω :=
  { unwind with exception := { unwind.exception with target } }

/-- An operation on an unwind. It has no result if its budget does not suffice. -/
abbrev Operation (W ω : Type) := StateT (Unwind W ω) Option

/-- A part of an operation that a failure of the walk ends. -/
abbrev Walk (W ω : Type) := ExceptT WalkError (Operation W ω)

/-- The budget is used up. -/
def unfinished : Walk W ω α := fun _ => none

def act (f : W → Except WalkError α × W) : Walk W ω α := fun unwind =>
  let (result, walker) := f unwind.walker
  some (result, { unwind with walker })

def next : Walk W ω (Option WalkFrame) := act FrameWalker.next

def unwoundPast : Walk W ω Unit := act FrameWalker.unwoundPast

def install : Walk W ω Unit := act FrameWalker.install

/-- Calls a routine on the context of the current frame and on the exception,
which stays where it is, whatever is written to it. -/
def call (routine : Routine (Exception × ω)) : Walk W ω Reason := do
  let unwind ← getThe (Unwind W ω)
  let (reason, context, exception, world) :=
    routine (FrameWalker.context unwind.walker) (unwind.exception, unwind.world)
  set { unwind with
    walker := FrameWalker.setContext unwind.walker context
    exception := { exception with address := unwind.exception.address }
    world }
  return reason

/-- Asks the personality of a frame. A frame without one continues. -/
def askPersonality (routines : Routines ω) (frame : WalkFrame) (action : Action) :
    Walk W ω Reason :=
  match frame.personality with
  | none => return .continueUnwind
  | some address => call (routines.personality address action)

/-- Calls the stop function of a forced unwind, as the exception had it when
the unwind began. -/
def askStop (routines : Routines ω) (begun : Exception) (action : Action) : Walk W ω Reason :=
  call (routines.stop begun.stop action begun.kind begun.target)

/-- The end of an operation whose walk failed. -/
def fail (error : WalkError) (reason : Reason) : Operation W ω Reason := do
  modify ({ · with failure := error.failure, phase := .fatalError })
  return reason

/-- Runs a walk and answers `reason` if it fails. -/
def orFail (walk : Walk W ω Reason) (reason : Reason) : Operation W ω Reason := do
  match ← walk.run with
  | .ok answer => return answer
  | .error error => fail error reason

/-- Looks for a handler from the next frame on. -/
def searchFrames (routines : Routines ω) : (budget : Nat) → Walk W ω (Option Word)
  | 0 => unfinished
  | budget + 1 => do
    let some frame ← next | return none
    match ← askPersonality routines frame .search with
    | .handlerFound => return some frame.id
    | .continueUnwind => searchFrames routines budget
    | reason => throw (.personality 1 reason)

/-- The first phase: the frame that handles the exception, if there is one. -/
def search (routines : Routines ω) (budget : Nat) : Walk W ω (Option Word) := do
  modify (enter .searching)
  modify rewound
  searchFrames routines budget

/-- Cleans up from the next frame on, as far as the handler. -/
def cleanupFrames (routines : Routines ω) (handler : Word) : (budget : Nat) → Walk W ω Reason
  | 0 => unfinished
  | budget + 1 => do
    let some frame ← next | throw (.handlerLost handler)
    let atHandler := decide (frame.id = handler)
    match ← askPersonality routines frame (if atHandler then .handle else .cleanup) with
    | .installContext => do
      install
      if atHandler then modify (enter .complete)
      return .installContext
    | .continueUnwind =>
      if atHandler then throw (.personality 2 .continueUnwind)
      else do
        unwoundPast
        cleanupFrames routines handler budget
    | reason => throw (.personality 2 reason)

/-- The second phase, towards the handler that the exception remembers. -/
def cleanup (routines : Routines ω) (budget : Nat) : Operation W ω Reason := do
  let handler := (← get).exception.target
  modify (enter .cleaningUp)
  modify rewound
  orFail (cleanupFrames routines handler budget) .fatalPhase2Error

/-- Searches for a handler and unwinds to it. -/
def raise (routines : Routines ω) (budget : Nat) : Operation W ω Reason := do
  modify (marked 0 0)
  match ← (search routines budget).run with
  | .error error => fail error .fatalPhase1Error
  | .ok none => do
    modify (enter .noHandler)
    return .endOfStack
  | .ok (some handler) => do
    modify (enter (.handlerFound handler))
    modify (aimed handler)
    cleanup routines budget

/-- Cleans up from the next frame on, as long as the stop function lets it. At
the end of the stack the stop function is called once more, and its answer
does not matter. -/
def forceFrames (routines : Routines ω) (begun : Exception) : (budget : Nat) → Walk W ω Reason
  | 0 => unfinished
  | budget + 1 => do
    match ← next with
    | none => do
      let _ ← askStop routines begun .forceEnd
      modify (enter .complete)
      return .endOfStack
    | some frame => do
      let answer ← askStop routines begun .force
      if answer ≠ .noReason then throw (.stopped answer)
      match ← askPersonality routines frame .force with
      | .continueUnwind => do
        unwoundPast
        forceFrames routines begun budget
      | .installContext => do
        install
        return .installContext
      | reason => throw (.personality 2 reason)

/-- The one phase of a forced unwind. -/
def force (routines : Routines ω) (budget : Nat) : Operation W ω Reason := do
  modify rewound
  modify (enter .cleaningUp)
  let begun := (← get).exception
  orFail (forceFrames routines begun budget) .fatalPhase2Error

/-- Unwinds all the way, unless a frame installs itself. -/
def forced (routines : Routines ω) (stop argument : Word) (budget : Nat) :
    Operation W ω Reason := do
  modify (marked stop argument)
  force routines budget

/-- Goes on with the second phase after a landing pad. -/
def resume (routines : Routines ω) (budget : Nat) : Operation W ω Reason := do
  if (← get).exception.stop = 0 then cleanup routines budget else force routines budget

/-- Raises afresh, unless the exception is being forced. -/
def resumeOrRethrow (routines : Routines ω) (budget : Nat) : Operation W ω Reason := do
  if (← get).exception.stop = 0 then raise routines budget else resume routines budget

/-- Calls `trace` for the frames from the next one on, until it answers with a
reason to end. -/
def traceFrames (trace : Routine ω) : (budget : Nat) → Walk W ω Reason
  | 0 => unfinished
  | budget + 1 => do
    let some _ ← next | return .endOfStack
    match ← call (.reading fun _ => trace) with
    | .noReason => traceFrames trace budget
    | reason => return reason

def backtrace (trace : Routine ω) (budget : Nat) : Operation W ω Reason := do
  modify rewound
  orFail (traceFrames trace budget) .fatalPhase1Error

end Unwind

end Unwinding
