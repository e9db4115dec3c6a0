import Unwinding.Routine

/-!
# Scripted routines

Routines can be given as data: each is a list of rules, and the first rule
that fits a call says what the routine does to the context and what it
answers. Every call is recorded with what the routine saw. A call without a
rule continues the unwind.
-/

namespace Unwinding.Script

/-- Which routine is meant. Personalities are numbered. -/
inductive Name where
  | personality (number : Nat)
  | stop
  | trace
  deriving Repr, DecidableEq

namespace Name

/-- Personality routines lie at these addresses, 16 bytes apart. -/
def firstAddress : Word := 0x70000000

def stopAddress : Word := 0x70001000

def personalityAddress (number : Nat) : Word := firstAddress + UInt64.ofNat (16 * number)

/-- The personality at an address. -/
def ofAddress (address : Word) : Option Name :=
  ((List.range 8).find? fun number => personalityAddress number == address).map personality

def all : List Name := (List.range 8).map personality ++ [stop, trace]

def text : Name → String
  | personality number => toString number
  | stop => "stop"
  | trace => "trace"

/-- What a routine answers if nothing else is said. -/
def answer : Name → Reason
  | personality _ => .continueUnwind
  | stop | trace => .noReason

end Name

/-- Something a routine does to its context. -/
inductive Act where
  | getRegister (index : Int)
  | setRegister (index : Int) (value : Word)
  | lookRegister (index : Nat)
  | trySetRegister (index : Nat) (value : Word)
  | setIp (address : Word)
  deriving Repr, DecidableEq

inductive ActResult where
  | nothing
  | word (value : Word)
  | flag (value : Bool)
  deriving Repr, DecidableEq

def Act.run (context : Context) : Act → ActResult × Context
  | getRegister index => (.word (context.registerD index), context)
  | setRegister index value => (.nothing, context.overwrite index value)
  | lookRegister index =>
    match context.register? index with
    | some value => (.word value, context)
    | none => (.nothing, context)
  | trySetRegister index value =>
    let (done, context) := context.writeRegister index value
    (.flag done, context)
  | setIp address => (.nothing, context.writeIp address)

def runActs (context : Context) : List Act → List ActResult × Context
  | [] => ([], context)
  | act :: acts =>
    let (result, context) := act.run context
    let (results, context) := runActs context acts
    (result :: results, context)

/-- A rule fits a call if the flags of the action agree with `flags` under
`mask` and if the other conditions that are given hold. -/
structure Reaction where
  mask : Nat
  flags : Nat
  ip : Option Word
  /-- How many calls of the routine went before. -/
  nth : Option Nat
  acts : List Act
  answer : Option Reason
  deriving Repr, DecidableEq

/-- A call of a routine. -/
structure Call where
  name : Name
  /-- What is asked for, and for which exception. A trace asks for nothing. -/
  request : Option (Action × Exception)
  /-- The argument of a stop or trace function. -/
  argument : Option Word
  deriving Repr, DecidableEq

/-- The flags of a call's action; a trace has none. -/
def Call.flags (call : Call) : Nat :=
  match call.request with
  | some (action, _) => action.flags
  | none => 0

def Reaction.fits (rule : Reaction) (call : Call) (context : Context) (earlier : Nat) : Bool :=
  call.flags &&& rule.mask == rule.flags && rule.ip.all (· == context.ip) &&
    rule.nth.all (· == earlier)

/-- What happened: a call with the context it saw and the results of its
acts, if a rule fitted, or a clean-up. -/
inductive Event where
  | called (call : Call) (context : Context) (acts : Option (List ActResult))
  | cleanedUp (reason : Reason) (kind : Word)
  deriving Repr, DecidableEq

end Script

/-- The rules of all routines, and what happened so far. -/
structure Script where
  rules : List (Script.Name × List Script.Reaction)
  log : List Script.Event
  deriving Repr, DecidableEq

namespace Script

def count (script : Script) (name : Name) : Nat :=
  script.log.countP fun event =>
    match event with
    | .called call _ _ => call.name == name
    | .cleanedUp .. => false

def rulesOf (script : Script) (name : Name) : List Reaction := (script.rules.lookup name).getD []

def record (event : Event) (script : Script) : Script :=
  { script with log := script.log ++ [event] }

def play (call : Call) : Routine Script := fun context script =>
  match (script.rulesOf call.name).find? (·.fits call context (script.count call.name)) with
  | none => (call.name.answer, context, script.record (.called call context none))
  | some rule =>
    let (results, changed) := runActs context rule.acts
    (rule.answer.getD call.name.answer, changed,
      script.record (.called call context (some results)))

/-- The scripted routines, as the protocol calls them. They write no exception. -/
def routines : Routines Script where
  personality address action := .reading fun exception context script =>
    match Name.ofAddress address with
    | some name => play ⟨name, some (action, exception), none⟩ context script
    | none => (.continueUnwind, context, script)
  stop _ action _ argument := .reading fun exception =>
    play ⟨.stop, some (action, exception), some argument⟩

def trace (argument : Word) : Routine Script := play ⟨.trace, none, some argument⟩

/-- Hands an exception back to the runtime that made it. -/
def delete (exception : Exception) (script : Script) : Script :=
  script.record (.cleanedUp .foreignExceptionCaught exception.kind)

end Script

end Unwinding
