import Unwinding.CallFrame.Instruction
import Unwinding.CallFrame.Row

/-!
# Running call frame instructions

The initial instructions of the common entry write the first row, and those
of the frame entry change it as the location moves through the function. The
run ends before the first move beyond the address asked for, so what follows
it is never looked at.
-/

namespace Unwinding

/-- How many rows can be saved at a time. -/
def Row.savedLimit : Nat := 16

/-- The row being written, and those put aside. -/
structure RowMachine where
  row : Row
  /-- The latest first. -/
  saved : List Row
  deriving Repr, DecidableEq

namespace RowMachine

/-- Rules name registers of the architecture only. -/
def catalogued (arch : Arch) (r : Register) : Except CfiError Register :=
  if r ≤ arch.highest then .ok r else .error (.badRegister r)

def assign (arch : Arch) (machine : RowMachine) (r : Register) (rule : Rule) :
    Except CfiError RowMachine := do
  let row ← machine.row.setRule (← catalogued arch r) rule
  return { machine with row }

def assignAll (arch : Arch) (machine : RowMachine) :
    List (Register × Rule) → Except CfiError RowMachine
  | [] => .ok machine
  | (r, rule) :: rest => do (← machine.assign arch r rule).assignAll arch rest

/-- The rules after the register window was spilled: the caller's outgoing
registers are the callee's incoming ones, and its local and incoming
registers lie in the save area at the frame address. -/
def windowRules : List (Register × Rule) :=
  (List.range 8).map (fun i => (8 + i, .inRegister (24 + i))) ++
  (List.range 16).map (fun i => (16 + i, .inCfaDecrypted (Int64.ofNat (8 * i))))

def setCfa (machine : RowMachine) (cfa : CfaRule) : RowMachine :=
  { machine with row := { machine.row with cfa } }

/-- The effect of an instruction on the row. Moves of the location have none.
`initial` is the row that restored rules come from. -/
def execute (arch : Arch) (initial : Option Row) (machine : RowMachine) :
    Instruction → Except CfiError RowMachine
  | .setLocation _ | .advance _ | .nop => .ok machine
  | .defCfa register offset => do
    return machine.setCfa (.registerOffset (← catalogued arch register) offset)
  | .defCfaRegister register => do
    let offset :=
      match machine.row.cfa with
      | .registerOffset _ offset => offset
      | _ => 0
    return machine.setCfa (.registerOffset (← catalogued arch register) offset)
  | .defCfaOffset offset =>
    match machine.row.cfa with
    | .registerOffset register _ => .ok (machine.setCfa (.registerOffset register offset))
    | _ => .error .cfaNotRegister
  | .defCfaExpression expression => .ok (machine.setCfa (.expression expression))
  | .undefined register => machine.assign arch register .undefined
  | .sameValue register => machine.assign arch register .unused
  | .offset register offset => machine.assign arch register (.inCfa offset)
  | .valOffset register offset => machine.assign arch register (.offsetFromCfa offset)
  | .register register source => do
    machine.assign arch register (.inRegister (← catalogued arch source))
  | .expression register expression => machine.assign arch register (.atExpression expression)
  | .valExpression register expression => machine.assign arch register (.isExpression expression)
  | .restore register =>
    machine.assign arch register ((initial.map (·.rule register)).getD .unused)
  | .rememberState =>
    if machine.saved.length < Row.savedLimit then
      .ok { machine with saved := machine.row :: machine.saved }
    else .error (.rememberOverflow Row.savedLimit)
  | .restoreState =>
    match machine.saved with
    | row :: saved => .ok ⟨row, saved⟩
    | [] => .error .restoreUnderflow
  | .argsSize argsSize => .ok { machine with row := { machine.row with argsSize } }
  | .negateSignState =>
    .ok { machine with row := { machine.row with raSigned := !machine.row.raSigned } }
  | .windowSave => machine.assignAll arch windowRules

/-- Runs a stream up to the last location at or before `pc`. -/
def run (arch : Arch) (initial : Option Row) (pc : Word) :
    (location : Word) → List (Except CfiError Instruction) → RowMachine →
      Except CfiError RowMachine
  | _, [], machine => .ok machine
  | _, .error error :: _, _ => .error error
  | location, .ok instruction :: rest, machine =>
    match instruction.target location with
    | some target => if pc < target then .ok machine else run arch initial pc target rest machine
    | none => do run arch initial pc location rest (← machine.execute arch initial instruction)

end RowMachine

/-- The row in force at `pc`. Rows saved by the initial instructions are not
there for the function's own. -/
def Row.inForce (arch : Arch) (space : AddressSpace) (bases : Bases) (common : CommonEntry)
    (entry : FrameEntry) (pc : Word) : Except CfiError Row := do
  let dialect := common.dialect bases arch
  let start : RowMachine :=
    ⟨{ Row.empty common.returnAddress with signalFrame := common.isSignalFrame }, []⟩
  let first ← start.run arch none lastAddress entry.pcStart
    (Instruction.items dialect space common.instructions)
  let last ← RowMachine.run arch (some first.row) pc entry.pcStart
    (Instruction.items dialect space entry.instructions) ⟨first.row, []⟩
  return last.row

/-- Decodes the frame entry at `address` and runs it up to `pc`. Addresses
relative to the function can be read only once its start is known. -/
def FrameEntry.rowAt (arch : Arch) (space : AddressSpace) (bases : Bases)
    (address pc : Word) : Except CfiError (Row × FrameEntry × CommonEntry) := do
  let (entry, common) ← FrameEntry.decode space { bases with function := none } address
  let row ← Row.inForce arch space { bases with function := some entry.pcStart } common entry pc
  return (row, entry, common)

end Unwinding
