import Unwinding.Context

/-!
# Routines of the language runtime

The unwinder calls code it knows nothing about: the personality of each
frame, the stop function of a forced unwind, the function that traces a
stack. It says what is to be done, hands over the context of the frame, and
acts on the answer.
-/

namespace Unwinding

/-- What a routine, or the protocol itself, answers. -/
inductive Reason where
  | noReason
  | foreignExceptionCaught
  | fatalPhase2Error
  | fatalPhase1Error
  | normalStop
  | endOfStack
  | handlerFound
  | installContext
  | continueUnwind
  deriving Repr, DecidableEq

def Reason.all : List Reason :=
  [.noReason, .foreignExceptionCaught, .fatalPhase2Error, .fatalPhase1Error, .normalStop,
    .endOfStack, .handlerFound, .installContext, .continueUnwind]

def Reason.name : Reason → String
  | noReason => "NO_REASON"
  | foreignExceptionCaught => "FOREIGN_EXCEPTION_CAUGHT"
  | fatalPhase2Error => "FATAL_PHASE2_ERROR"
  | fatalPhase1Error => "FATAL_PHASE1_ERROR"
  | normalStop => "NORMAL_STOP"
  | endOfStack => "END_OF_STACK"
  | handlerFound => "HANDLER_FOUND"
  | installContext => "INSTALL_CONTEXT"
  | continueUnwind => "CONTINUE_UNWIND"

/-- What a routine is asked to do. -/
inductive Action where
  | search
  | cleanup
  /-- Clean up the frame that was chosen in the first phase. -/
  | handle
  /-- Clean up in a forced unwind. -/
  | force
  /-- A forced unwind has no more frames. -/
  | forceEnd
  deriving Repr, DecidableEq

namespace Action

/-- The action as flags: search 1, cleanup 2, handler frame 4, forced 8, end
of the stack 16. -/
def flags : Action → Nat
  | search => 1
  | cleanup => 2
  | handle => 2 + 4
  | force => 2 + 8
  | forceEnd => 2 + 8 + 16

end Action

/-- An exception as the protocol sees it. -/
structure Exception where
  address : Word
  /-- Names the runtime that made the exception. -/
  kind : Word
  /-- The stop function of a forced unwind, zero otherwise. -/
  stop : Word
  /-- The handler frame found in the first phase, or the argument of the stop
  function. -/
  target : Word
  deriving Repr, DecidableEq

/-- A call of a routine: it sees the context and a state, may change both, and
answers. -/
abbrev Routine (σ : Type) := Context → σ → Reason × Context × σ

/-- A routine that looks at the exception and leaves it alone. -/
def Routine.reading {ω : Type} (routine : Exception → Routine ω) : Routine (Exception × ω) :=
  fun context (exception, world) =>
    let (reason, context, world) := routine exception context world
    (reason, context, exception, world)

/-- The code that the protocol calls, with its state in `ω`. It is handed the
exception, too, and may write it. -/
structure Routines (ω : Type) where
  personality : (address : Word) → Action → Routine (Exception × ω)
  stop : (address : Word) → Action → (kind argument : Word) → Routine (Exception × ω)

end Unwinding
