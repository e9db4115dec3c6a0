import Unwinding.Sections

/-!
# Walking a stack

A cursor stands on a frame and moves to its caller. It remembers what it
found out about the current frame, and forgets it with every change of the
registers. A return address points behind the call, which may already be the
next function, so rules are looked up one byte before it; the address is
exact in the first frame and in one that a signal interrupted.
-/

namespace Unwinding

variable {arch : Arch}

structure Cursor (arch : Arch) where
  file : RegisterFile arch
  /-- The instruction pointer is no return address. -/
  exactIp : Bool
  /-- The current frame, if it was looked up. -/
  frame : Option Frame
  deriving Repr, DecidableEq

inductive StepResult where
  | stepped
  | endOfStack
  deriving Repr, DecidableEq

namespace Cursor

/-- A cursor on the first frame of a walk. -/
def start (file : RegisterFile arch) : Cursor arch := ⟨file, true, none⟩

/-- The address that rules are looked up for. -/
def lookupPc (cursor : Cursor arch) : Word :=
  if cursor.exactIp then cursor.file.ip else cursor.file.ip - 1

/-- A walk in a program. On failure the cursor stays where it is. -/
abbrev Walk (arch : Arch) := ReaderT Program (EStateM StepError (Cursor arch))

/-- Continues with a result that may be a failure. -/
def attempt {α : Type} : Except StepError α → Walk arch α
  | .ok value => return value
  | .error error => throw error

/-- The current frame. There is none at address zero, and none where no
unwind information reaches. -/
def current : Walk arch (Option Frame) := do
  let cursor ← get
  match cursor.frame with
  | some frame => return some frame
  | none =>
    if cursor.file.ip = 0 then return none
    let frame ← attempt ((← read).locate arch cursor.lookupPc)
    set { cursor with frame }
    return frame

/-- What is known about the function of the current frame. -/
def procInfo : Walk arch (Option ProcInfo) := return (← current).map (·.info)

def frameAddress : Walk arch (Option Word) := do
  let some frame ← current | return none
  return some (← attempt (frame.row.frameAddress (← read).space (← get).file))

/-- Moves to the caller. -/
def step : Walk arch StepResult := do
  let some frame ← current | return .endOfStack
  let file ← attempt (frame.row.apply (← read).space (← get).file)
  set (Cursor.mk file frame.info.signalFrame none)
  return if file.ip = 0 then .endOfStack else .stepped

end Cursor

end Unwinding
