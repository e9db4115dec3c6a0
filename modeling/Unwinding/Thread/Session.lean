import Unwinding.Cursor
import Unwinding.Exception.Ledger
import Unwinding.Protocol
import Unwinding.Walker.Chained

/-!
# A call into the unwinder from a running thread

The leaf of a stack raises an exception, or forces or traces an unwind. A
function that takes over either goes on after its call, and then all
functions return, or comes to its landing pad, which handles the exception,
resumes the unwind or starts another. Such an unwind begins at the function
that landed: the ones further in are gone.
-/

namespace Unwinding

/-- What a landing pad does. Afterwards its function returns, unless another
unwind is under way. -/
inductive PadStep where
  | leave
  /-- Handle the exception to the end. -/
  | catchEnd
  /-- Begin to handle the exception, and leave it at that. -/
  | catchKeep
  | catchRethrow
  /-- Handle the exception and throw another. -/
  | catchThrow
  | resume
  /-- Leave the innermost handler, then resume. -/
  | endResume
  | resumeOrRethrow
  | delete
  deriving Repr, DecidableEq

namespace PadStep

def all : List PadStep :=
  [leave, catchEnd, catchKeep, catchRethrow, catchThrow, resume, endResume, resumeOrRethrow, delete]

def name : PadStep → String
  | leave => "return"
  | catchEnd => "catch"
  | catchKeep => "catch_keep"
  | catchRethrow => "catch_rethrow"
  | catchThrow => "catch_throw"
  | resume => "resume"
  | endResume => "end_resume"
  | resumeOrRethrow => "resume_or_rethrow"
  | delete => "delete"

def entersHandler : PadStep → Bool
  | catchEnd | catchKeep | catchRethrow | catchThrow => true
  | _ => false

end PadStep

/-- A landing: the function, the value it was handed and the exception, by its
number in the ledger. -/
structure Landing where
  frame : ChainFrame
  value : Word
  exception : Nat
  /-- The bytes between the frame's base and the stack pointer. -/
  depth : Word
  deriving Repr, DecidableEq

/-- What a pad got on entering a handler. -/
structure CaughtException (π : Type) where
  /-- None for a foreign exception. -/
  payload : Option π
  references : Option Nat
  deriving Repr, DecidableEq

inductive ThreadEvent (π : Type) where
  | called (event : Script.Event)
  | landed (landing : Landing) (step : PadStep) (caught : Option (CaughtException π))
  | kept (event : LedgerEvent π)
  deriving Repr, DecidableEq

/-- Why a thread did not come to an end. -/
inductive ThreadFault where
  | ledger (fault : LedgerFault)
  /-- An unwind could not be resumed. -/
  | aborted
  /-- The budget did not suffice. -/
  | unfinished
  deriving Repr, DecidableEq

/-- The state of a thread between two unwinds. -/
structure Session (π : Type) where
  script : Script
  /-- The exceptions of the ledger as the unwinder sees them. -/
  exceptions : List Exception
  ledger : Ledger π
  /-- What the pads of the functions, by index, are still to do. -/
  pads : List (Nat × List PadStep)
  log : List (ThreadEvent π)
  deriving Repr, DecidableEq

/-- What came out of an unwind. -/
inductive Arrival where
  | returned (reason : Reason)
  /-- A function goes on after its call. -/
  | continued
  | landed (landing : Landing)
  deriving Repr, DecidableEq

/-- A stack on which an unwind begins. -/
structure Thread (π : Type) where
  chain : Chain
  /-- The payload that a pad throws for a value. -/
  payload : Word → π

namespace Thread

variable {π α : Type}

abbrev Run (π : Type) := EStateM ThreadFault (Session π)

def note (event : ThreadEvent π) : Run π Unit :=
  modify fun session => { session with log := session.log ++ [event] }

/-- Updates the ledger. What it does goes into the log. -/
def keep (update : Ledger.Update π α) : Run π α := fun session =>
  let noted (ledger : Ledger π) : Session π :=
    { session with ledger, log := session.log ++ ledger.log.map .kept }
  match update { session.ledger with log := [] } with
  | .ok value ledger => .ok value (noted ledger)
  | .error fault ledger => .error (.ledger fault) (noted ledger)

/-- Makes an exception of the ledger known to the unwinder. -/
def present (number : Nat) : Run π Unit :=
  modify fun session =>
    if number < session.exceptions.length then session
    else
      let kind := (session.ledger.entry number).kind.getD 0
      { session with exceptions := session.exceptions ++ [⟨UInt64.ofNat number, kind, 0, 0⟩] }

/-- What a walk that answered `reason` comes to. -/
def arrival (exception : Nat) (walker : ChainedWalker) (reason : Reason) : Arrival :=
  match reason, walker.landing with
  | .installContext, some (frame, context) =>
    if context.ip = frame.landingPad then
      let sp := context.cfa + context.argsSize
      .landed ⟨frame, context.registerD 1, exception, frame.base - sp⟩
    else .continued
  | .installContext, none => .returned .fatalPhase2Error
  | _, _ => .returned reason

def operate (chain : Chain) (exception : Nat)
    (operation : (budget : Nat) → Unwind.Operation ChainedWalker Script Reason) :
    Run π (Reason × ChainedWalker) := fun session =>
  let seen := session.exceptions.getD exception ⟨0, 0, 0, 0⟩
  match operation (chain.length + 1) (.start (.start chain) seen session.script) with
  | none => .error .unfinished session
  | some (reason, unwind) =>
    let calls := unwind.world.log.drop session.script.log.length
    .ok (reason, unwind.walker) { session with
      script := unwind.world
      exceptions := session.exceptions.set exception unwind.exception
      log := session.log ++ calls.map .called }

/-- Unwinds, which may end in another function. -/
def unwind (chain : Chain) (exception : Nat)
    (operation : (budget : Nat) → Unwind.Operation ChainedWalker Script Reason) :
    Run π Arrival := do
  let (reason, walker) ← operate chain exception operation
  return arrival exception walker reason

/-- Unwinds for an exception that somebody has to catch. -/
def unwindCaught (chain : Chain) (exception : Nat)
    (operation : (budget : Nat) → Unwind.Operation ChainedWalker Script Reason) :
    Run π Arrival := do
  match ← unwind chain exception operation with
  | .returned _ => keep (Ledger.throwFailed exception)
  | arrival => return arrival

def throwPayload (chain : Chain) (payload : π) : Run π Arrival := do
  let exception ← keep (Ledger.beginThrow payload)
  present exception
  unwindCaught chain exception (Unwind.raise Script.routines)

def rethrow (chain : Chain) : Run π Arrival := do
  let exception ← keep Ledger.beginRethrow
  present exception
  unwindCaught chain exception (Unwind.resumeOrRethrow Script.routines)

/-- Goes on with an unwind, which has to find a function that takes over. -/
def resume (chain : Chain) (exception : Nat) : Run π Arrival := do
  match ← unwind chain exception (Unwind.resume Script.routines) with
  | .returned _ => throw .aborted
  | arrival => return arrival

def enterHandler (exception : Nat) : Run π (CaughtException π) := do
  let payload ← keep (Ledger.beginCatch exception)
  return ⟨payload, (← get).ledger.references exception⟩

/-- The next thing for the pad of a function to do. -/
def takeStep (index : Nat) : Run π PadStep := do
  let session ← get
  match session.pads.lookup index with
  | some (step :: steps) => do
    let pads := session.pads.map fun (i, left) => (i, if i = index then steps else left)
    set { session with pads }
    return step
  | _ => return .leave

/-- Does what follows a landing, which may be another unwind. -/
def follow (thread : Thread π) (landing : Landing) : PadStep → Run π (Option Arrival)
  | .leave | .catchKeep => return none
  | .catchEnd => do
    keep Ledger.endCatch
    return none
  | .catchRethrow => some <$> rethrow thread.chain
  | .catchThrow => some <$> throwPayload thread.chain (thread.payload (landing.value + 100))
  | .resume => some <$> resume thread.chain landing.exception
  | .endResume => do
    keep Ledger.endCatch
    some <$> resume thread.chain landing.exception
  | .resumeOrRethrow =>
    some <$> unwind thread.chain landing.exception (Unwind.resumeOrRethrow Script.routines)
  | .delete => do
    keep (Ledger.delete landing.exception)
    return none

def land (thread : Thread π) (landing : Landing) : Run π (Option Arrival) := do
  let step ← takeStep (landing.frame.index.getD 0)
  let caught ←
    if step.entersHandler then some <$> enterHandler landing.exception else pure none
  note (.landed landing step caught)
  follow { thread with chain := thread.chain.landed landing.frame.depth } landing step

/-- Runs landing pads until the functions return. Answers the reason that the
last unwind returned with, if it was the unwind that came back. -/
def settle (thread : Thread π) : (landings : Nat) → Arrival → Run π (Option Reason)
  | _, .returned reason => return some reason
  | _, .continued => return none
  | 0, .landed _ => throw .unfinished
  | landings + 1, .landed landing => do
    match ← land thread landing with
    | none => return none
    | some arrival => settle thread landings arrival

/-- What the leaf does. The exception it may need is the first of the ledger. -/
inductive Call (π : Type) where
  | raise
  | resumeOrRethrow
  | forced (argument : Word)
  | backtrace (argument : Word)
  | throw (payload : π)
  | rethrow
  deriving Repr, DecidableEq

def call (thread : Thread π) : Call π → Run π Arrival
  | .raise => unwind thread.chain 0 (Unwind.raise Script.routines)
  | .resumeOrRethrow => unwind thread.chain 0 (Unwind.resumeOrRethrow Script.routines)
  | .forced argument =>
    unwind thread.chain 0 (Unwind.forced Script.routines Script.Name.stopAddress argument)
  | .backtrace argument => do
    let (reason, _) ← operate thread.chain 0 (Unwind.backtrace (Script.trace argument))
    return .returned reason
  | .throw payload => throwPayload thread.chain payload
  | .rethrow => rethrow thread.chain

/-- A session that has begun: there is one foreign exception, and nothing was
thrown. -/
def begin (kind : Word) (script : Script) (pads : List (Nat × List PadStep)) : Session π where
  script
  exceptions := [⟨0, kind, 0, 0⟩]
  ledger := { Ledger.empty with entries := [.foreign kind true] }
  pads
  log := []

/-- Runs a call to the end. Every landing uses up a step of a pad, or is the last. -/
def run (thread : Thread π) (call : Call π) : Run π (Option Reason) := do
  let landings := ((← get).pads.flatMap (·.2)).length + 1
  settle thread landings (← thread.call call)

end Thread

/-- Steps outward through a chain: every function with what its step comes to.
The root returns to nowhere. -/
def Chain.steps (chain : Chain) : List (ChainFrame × StepResult) :=
  chain.map fun frame => (frame, if frame.depth = 0 then .endOfStack else .stepped)

end Unwinding
