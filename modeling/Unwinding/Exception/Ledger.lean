import Unwinding.Routine

/-!
# The exceptions of a thread

A thread keeps a ledger of the exceptions it is throwing and handling. An
exception of its own, a native one, carries a payload. Throwing one again
while it is handled makes a dependent exception, which shares the payload of
the primary one. References are counted: a native exception has one of its
own, and a primary exception has one more for each of its dependents. The
payload is dropped with the last of them. Foreign exceptions belong to other
runtimes, which take them back by a callback.

Exceptions are numbered in the order in which they came into the ledger.
-/

namespace Unwinding

/-- Called when the handling of exceptions cannot go on. -/
inductive Handler where
  | standard
  | numbered (number : Nat)
  deriving Repr, DecidableEq

/-- What the ledger keeps for every native exception. -/
structure ExceptionHeader where
  /-- How many handlers are running for it. -/
  handlers : Nat
  references : Nat
  terminate : Handler
  unexpected : Handler
  deriving Repr, DecidableEq

inductive LedgerEntry (π : Type) where
  | primary (payload : π) (header : ExceptionHeader)
  | dependent (primary : Nat) (header : ExceptionHeader)
  /-- Of some other runtime, which may want it back. -/
  | foreign (kind : Word) (wanted : Bool)
  /-- A native exception that is gone. -/
  | freed
  deriving Repr, DecidableEq

namespace LedgerEntry

/-- The class of primary exceptions. -/
def primaryKind : Word := 0x5354574e52555354

/-- The class of dependent exceptions. -/
def dependentKind : Word := 0x5354574e52555301

/-- A class is native whatever its last byte, which only tells primary and
dependent exceptions apart. -/
def isNative (kind : Word) : Bool := kind >>> 8 == primaryKind >>> 8

variable {π : Type}

/-- The class of an exception that is not gone. -/
def kind : LedgerEntry π → Option Word
  | primary .. => some primaryKind
  | dependent .. => some dependentKind
  | foreign kind _ => some kind
  | freed => none

def header : LedgerEntry π → Option ExceptionHeader
  | primary _ header | dependent _ header => some header
  | foreign .. | freed => none

/-- The entry with its header changed. -/
def mapHeader (f : ExceptionHeader → ExceptionHeader) : LedgerEntry π → LedgerEntry π
  | primary payload header => primary payload (f header)
  | dependent number header => dependent number (f header)
  | entry => entry

end LedgerEntry

/-- Why an operation on the ledger did not come back. -/
inductive LedgerFault where
  | terminated (handler : Handler)
  /-- A reference was given up that nobody had. -/
  | overReleased (exception : Nat)
  /-- A handler was left that nobody had entered. -/
  | notHandled (exception : Nat)
  /-- The exception is gone. -/
  | dead (exception : Nat)
  deriving Repr, DecidableEq

/-- What the ledger does that others notice. -/
inductive LedgerEvent (π : Type) where
  | dropped (payload : π)
  | returned (kind : Word)
  | unexpected (handler : Nat)
  deriving Repr, DecidableEq

structure Ledger (π : Type) where
  entries : List (LedgerEntry π)
  /-- The exceptions being handled, the innermost first. -/
  caught : List Nat
  /-- How many were thrown and not caught yet. -/
  uncaught : Nat
  terminate : Handler
  unexpected : Handler
  log : List (LedgerEvent π)
  deriving Repr, DecidableEq

namespace Ledger

variable {π : Type}

/-- The ledger of a thread that has thrown nothing. -/
def empty : Ledger π := ⟨[], [], 0, .standard, .standard, []⟩

/-- An operation on the ledger. A fault leaves the ledger as it was then. -/
abbrev Update (π : Type) := EStateM LedgerFault (Ledger π)

def entry (ledger : Ledger π) (exception : Nat) : LedgerEntry π :=
  ledger.entries[exception]?.getD .freed

/-- The innermost exception being handled. -/
def current (ledger : Ledger π) : Option Nat := ledger.caught.head?

/-- The exception whose payload an exception has: itself, unless it is a
dependent one. -/
def primaryOf (ledger : Ledger π) (exception : Nat) : Nat :=
  match ledger.entry exception with
  | .dependent primary _ => primary
  | _ => exception

def payload (ledger : Ledger π) (exception : Nat) : Option π :=
  match ledger.entry (ledger.primaryOf exception) with
  | .primary payload _ => some payload
  | _ => none

/-- How many exceptions share the payload of a native exception. -/
def references (ledger : Ledger π) (exception : Nat) : Option Nat :=
  (ledger.entry (ledger.primaryOf exception)).header.map (·.references)

def record (event : LedgerEvent π) : Update π Unit :=
  modify fun ledger => { ledger with log := ledger.log ++ [event] }

def put (exception : Nat) (entry : LedgerEntry π) : Update π Unit :=
  modify fun ledger => { ledger with entries := ledger.entries.set exception entry }

def adjust (exception : Nat) (f : ExceptionHeader → ExceptionHeader) : Update π Unit :=
  modify fun ledger => { ledger with entries := ledger.entries.modify exception (·.mapHeader f) }

/-- Adds an entry and answers its number. -/
def add (entry : LedgerEntry π) : Update π Nat := do
  let ledger ← get
  set { ledger with entries := ledger.entries ++ [entry] }
  return ledger.entries.length

/-- Takes the innermost exception off the ones being handled. -/
def popCaught : Update π Unit :=
  modify fun ledger => { ledger with caught := ledger.caught.tail }

def pushCaught (exception : Nat) : Update π Unit :=
  modify fun ledger => { ledger with caught := exception :: ledger.caught }

/-- A handler of the native exception being handled, or the thread's. -/
def handlerInForce (ledger : Ledger π) (ofHeader : ExceptionHeader → Handler)
    (ofThread : Handler) : Handler :=
  ((ledger.current.bind fun exception => (ledger.entry exception).header).map ofHeader).getD
    ofThread

/-- Gives up. -/
def terminated {α : Type} : Update π α := do
  let ledger ← get
  throw (.terminated (ledger.handlerInForce (·.terminate) ledger.terminate))

/-- Calls the handler for what was not expected, and gives up if it comes back. -/
def unexpectedFound {α : Type} : Update π α := do
  let ledger ← get
  match ledger.handlerInForce (·.unexpected) ledger.unexpected with
  | .standard => throw (.terminated .standard)
  | .numbered number => do
    record (.unexpected number)
    terminated

/-- Sets the handler for failures outside of any exception and for the
exceptions thrown from now on. Answers the one before. -/
def setTerminate (handler : Handler) : Update π Handler := do
  let ledger ← get
  set { ledger with terminate := handler }
  return ledger.terminate

def setUnexpected (handler : Handler) : Update π Handler := do
  let ledger ← get
  set { ledger with unexpected := handler }
  return ledger.unexpected

/-- Gives up a reference of `exception`, whose header is `header`. The last
one frees it, and `freed` follows. -/
def dropReference (exception : Nat) (header : ExceptionHeader) (freed : Update π Unit) :
    Update π Unit :=
  match header.references with
  | 0 => throw (.overReleased exception)
  | 1 => do
    put exception .freed
    freed
  | references + 2 => adjust exception ({ · with references := references + 1 })

/-- Gives up a reference of a primary exception. The last one drops the payload. -/
def releasePrimary (exception : Nat) : Update π Unit := do
  match (← get).entry exception with
  | .primary payload header => dropReference exception header (record (.dropped payload))
  | _ => throw (.dead exception)

/-- Gives up a reference of a native exception. The last one of a dependent
exception gives up one of its primary. -/
def release (exception : Nat) : Update π Unit := do
  match (← get).entry exception with
  | .dependent primary header => dropReference exception header (releasePrimary primary)
  | _ => releasePrimary exception

/-- Hands an exception back to the runtime that made it. -/
def delete (exception : Nat) : Update π Unit := do
  match (← get).entry exception with
  | .foreign kind wanted => if wanted then record (.returned kind)
  | _ => release exception

/-- Makes an exception for `payload`, on its way from now on. -/
def beginThrow (payload : π) : Update π Nat := do
  let ledger ← get
  set { ledger with uncaught := ledger.uncaught + 1 }
  add (.primary payload ⟨0, 1, ledger.terminate, ledger.unexpected⟩)

/-- Takes note of an exception of another runtime. -/
def addForeign (kind : Word) (wanted : Bool) : Update π Nat := add (.foreign kind wanted)

/-- Enters a handler. Answers the payload of a native exception. A foreign
exception has none, and cannot be handled within another. -/
def beginCatch (exception : Nat) : Update π (Option π) := do
  let ledger ← get
  match ledger.entry exception with
  | .foreign .. => do
    if ledger.caught ≠ [] then terminated
    pushCaught exception
    return none
  | .freed => throw (.dead exception)
  | _ => do
    adjust exception fun header => { header with handlers := header.handlers + 1 }
    if ledger.current ≠ some exception then pushCaught exception
    modify fun ledger => { ledger with uncaught := ledger.uncaught - 1 }
    return ledger.payload exception

/-- Leaves the innermost handler, if there is one. An exception that no
handler runs for any more is done with. -/
def endCatch : Update π Unit := do
  let ledger ← get
  match ledger.current with
  | none => return
  | some exception =>
    match ledger.entry exception with
    | .foreign .. => do
      popCaught
      delete exception
    | entry =>
      match entry.header.map (·.handlers) with
      | none => throw (.dead exception)
      | some 0 => throw (.notHandled exception)
      | some (handlers + 1) => do
        adjust exception ({ · with handlers })
        if handlers = 0 then
          popCaught
          release exception

/-- A dependent exception of `primary`. -/
def addDependent (primary : Nat) : Update π Nat := do
  match (← get).entry primary with
  | .primary _ header => do
    adjust primary ({ · with references := header.references + 1 })
    add (.dependent primary { header with handlers := 0, references := 1 })
  | _ => throw (.dead primary)

/-- Throws the innermost exception being handled once more. A native one stays
where it is, and a dependent exception is on its way instead. -/
def beginRethrow : Update π Nat := do
  let ledger ← get
  match ledger.current with
  | none => terminated
  | some exception => do
    set { ledger with uncaught := ledger.uncaught + 1 }
    match ledger.entry exception with
    | .foreign .. => do
      popCaught
      return exception
    | _ => addDependent (ledger.primaryOf exception)

/-- Nobody caught the exception. -/
def throwFailed {α : Type} (exception : Nat) : Update π α := do
  let _ ← beginCatch exception
  terminated

end Ledger

end Unwinding
