import Unwinding.Routine
import Unwinding.Registration
import Unwinding.Restore

/-!
# Ways of walking a stack

A stack can be walked by restoring registers or by following a list of
registered functions. The unwinder needs only a few operations, and every one
of them may fail.
-/

namespace Unwinding

/-- Why a walk was given up. -/
inductive WalkError where
  | step (error : StepError)
  | register (error : RegisterError)
  | registration (error : RegistrationError)
  /-- A personality gave an answer that its phase does not allow. -/
  | personality (phase : Nat) (reason : Reason)
  /-- The second phase did not come past the handler. -/
  | handlerLost (frame : Word)
  /-- The stop function ended the unwind. -/
  | stopped (reason : Reason)
  deriving Repr, DecidableEq

namespace WalkError

def name : WalkError → String
  | step error => "Step." ++ error.name
  | register error => "Register." ++ error.name
  | registration error => "Sjlj." ++ error.name
  | personality .. => "Personality"
  | handlerLost .. => "HandlerLost"
  | stopped .. => "Stopped"

def message : WalkError → String
  | step error => error.message
  | register error => error.message
  | registration error => error.message
  | personality phase reason => s!"personality returned _URC_{reason.name} in phase {phase}"
  | handlerLost frame => s!"phase 2 never reached the handler frame {Hex.word frame}"
  | stopped reason => s!"stop function returned _URC_{reason.name}"

/-- How a failed step is reported. The protocol's own errors have no class. -/
def failure : WalkError → Option StepFailure
  | step error => some error.failure
  | register _ => some .badRegister
  | _ => none

end WalkError

/-- A frame that a walk stopped at. -/
structure WalkFrame where
  /-- The same in both phases. -/
  id : Word
  personality : Option Word
  deriving Repr, DecidableEq

/-- A way of walking a stack, with its state in `W`. A failing operation
leaves a state, too. -/
class FrameWalker (W : Type) where
  /-- Goes back to where the exception was raised. -/
  rewind : W → W
  /-- Moves one frame outward, if there is one. -/
  next : W → Except WalkError (Option WalkFrame) × W
  /-- The context of the current frame. -/
  context : W → Context
  setContext : W → Context → W
  /-- The second phase left the current frame behind. -/
  unwoundPast : W → Except WalkError Unit × W
  /-- Prepares to resume in the current frame, as its context says. -/
  install : W → Except WalkError Unit × W

end Unwinding
