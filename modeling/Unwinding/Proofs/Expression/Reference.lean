import Unwinding.Expression.Machine
import Unwinding.Proofs.Reading.Confined

/-!
# The stack machine on lists

The meaning of an operation is what it does to a list of values, top first. The
list has no bound, and neither has the number of operations. Of the memory
around the code nothing is there for the machine to take instructions from;
only what an operation loads is read in all of the memory.
-/

namespace Unwinding

structure ListMachine where
  pos : Word
  stack : List Word
  deriving Repr, DecidableEq

namespace ListMachine

variable {arch : Arch} {α : Type} (setting : StackMachine.Setting arch)

/-- What is written in the code at `pos`, and where the code goes on. -/
def fetch (read : Reading MemoryError α) (pos : Word) : Except ExpressionError (α × Word) :=
  match read (setting.space.between setting.code.start setting.code.stop)
    ⟨pos, setting.code.stop⟩ with
  | .ok value span => .ok (value, span.pos)
  | .error error _ => .error (.memory error)

def register (r : Register) : Except ExpressionError Word :=
  (setting.file.get r).mapError .register

def loaded (size : UInt8) (address : Word) : Except ExpressionError Word :=
  match size with
  | 1 => ((setting.space.get8 address).map (·.toUInt64)).mapError .memory
  | 2 => ((setting.space.get16 address).map (·.toUInt64)).mapError .memory
  | 4 => ((setting.space.get32 address).map (·.toUInt64)).mapError .memory
  | 8 => (setting.space.get64 address).mapError .memory
  | _ => .error (.badDerefSize size)

/-- Where a jump from `pos` goes, which must be in the code or at its end. -/
def destination (pos : Word) (distance : Int16) : Except ExpressionError Word :=
  let target := pos + distance.toInt64.toUInt64
  if setting.code.start ≤ target ∧ target ≤ setting.code.stop then .ok target
  else .error (.branchOutOfRange target)

/-- What an operation does behind its opcode. -/
def effect (opcode : UInt8) : Operation → ListMachine → Except ExpressionError ListMachine
  | .constant form, ⟨pos, stack⟩ => do
    let (value, pos) ← fetch setting form.read pos
    return ⟨pos, value :: stack⟩
  | .literal value, ⟨pos, stack⟩ => .ok ⟨pos, value :: stack⟩
  | .dup, ⟨pos, a :: stack⟩ => .ok ⟨pos, a :: a :: stack⟩
  | .drop, ⟨pos, _ :: stack⟩ => .ok ⟨pos, stack⟩
  | .over, ⟨pos, a :: b :: stack⟩ => .ok ⟨pos, b :: a :: b :: stack⟩
  | .pick, ⟨pos, stack⟩ => do
    let (depth, pos) ← fetch setting Reading.u8 pos
    match stack[depth.toNat]? with
    | some value => return ⟨pos, value :: stack⟩
    | none => throw (.stackUnderflow opcode)
  | .swap, ⟨pos, a :: b :: stack⟩ => .ok ⟨pos, b :: a :: stack⟩
  | .rot, ⟨pos, a :: b :: c :: stack⟩ => .ok ⟨pos, b :: c :: a :: stack⟩
  | .deref, ⟨pos, address :: stack⟩ => do
    return ⟨pos, (← loaded setting 8 address) :: stack⟩
  | .spaceDeref, ⟨pos, address :: _ :: stack⟩ => do
    return ⟨pos, (← loaded setting 8 address) :: stack⟩
  | .derefSize, ⟨pos, stack⟩ => do
    let (size, pos) ← fetch setting Reading.u8 pos
    match stack with
    | address :: stack => return ⟨pos, (← loaded setting size address) :: stack⟩
    | [] => throw (.stackUnderflow opcode)
  | .spaceDerefSize, ⟨pos, stack⟩ => do
    let (size, pos) ← fetch setting Reading.u8 pos
    match stack with
    | address :: _ :: stack => return ⟨pos, (← loaded setting size address) :: stack⟩
    | _ => throw (.stackUnderflow opcode)
  | .unary op, ⟨pos, a :: stack⟩ => .ok ⟨pos, op.apply a :: stack⟩
  | .binary op, ⟨pos, top :: second :: stack⟩ => do
    return ⟨pos, (← op.apply second top) :: stack⟩
  | .plusConstant, ⟨pos, a :: stack⟩ => do
    let (n, pos) ← fetch setting Reading.uleb128 pos
    return ⟨pos, (a + n) :: stack⟩
  | .skip, ⟨pos, stack⟩ => do
    let (distance, pos) ← fetch setting Reading.i16 pos
    return ⟨← destination setting pos distance, stack⟩
  | .branch, ⟨pos, stack⟩ => do
    let (distance, pos) ← fetch setting Reading.i16 pos
    match stack with
    | flag :: stack =>
      if flag = 0 then return ⟨pos, stack⟩
      else return ⟨← destination setting pos distance, stack⟩
    | [] => throw (.stackUnderflow opcode)
  | .register r, ⟨pos, stack⟩ => do return ⟨pos, (← register setting r) :: stack⟩
  | .registerOperand, ⟨pos, stack⟩ => do
    let (r, pos) ← fetch setting Reading.uleb128 pos
    return ⟨pos, (← register setting (StackMachine.registerNumber r)) :: stack⟩
  | .based r, ⟨pos, stack⟩ => do
    let base ← register setting r
    let (offset, pos) ← fetch setting Reading.sleb128 pos
    return ⟨pos, (base + offset.toUInt64) :: stack⟩
  | .basedOperand, ⟨pos, stack⟩ => do
    let (r, pos) ← fetch setting Reading.uleb128 pos
    let base ← register setting (StackMachine.registerNumber r)
    let (offset, pos) ← fetch setting Reading.sleb128 pos
    return ⟨pos, (base + offset.toUInt64) :: stack⟩
  | .nop, machine => .ok machine
  | _, _ => .error (.stackUnderflow opcode)

def next (machine : ListMachine) : Except ExpressionError ListMachine := do
  let (opcode, pos) ← fetch setting Reading.u8 machine.pos
  let operation ← Operation.ofByte opcode
  effect setting opcode operation ⟨pos, machine.stack⟩

end ListMachine

/-- The states of a run: `n` steps lead to `state`, and none of them was taken
from a state where the run is over. -/
inductive Reaches {ε σ : Type} (step : σ → Except ε σ) (ended : σ → Prop) (start : σ) :
    Nat → σ → Prop
  | start : Reaches step ended start 0 start
  | step {n : Nat} {state state' : σ} : Reaches step ended start n state → ¬ ended state →
      step state = .ok state' → Reaches step ended start (n + 1) state'

namespace Reaches

variable {ε σ : Type} {step : σ → Except ε σ} {ended : σ → Prop} {start : σ} {n m : Nat}
  {state state' : σ}

theorem unique (h : Reaches step ended start n state) (h' : Reaches step ended start n state') :
    state = state' := by
  induction h generalizing state' with
  | start =>
    cases h'
    rfl
  | step _ _ hstep ih =>
    cases h' with
    | step hbefore _ hstep' =>
      cases ih hbefore
      exact Except.ok.inj (hstep.symm.trans hstep')

theorem first (hended : ¬ ended start) (hstep : step start = .ok state)
    (h : Reaches step ended state n state') : Reaches step ended start (n + 1) state' := by
  induction h with
  | start => exact .step .start hended hstep
  | step _ hended' hstep' ih => exact .step ih hended' hstep'

theorem before (h : Reaches step ended start (n + 1) state') :
    ∃ state, Reaches step ended start n state ∧ ¬ ended state ∧ step state = .ok state' := by
  cases h with
  | step hbefore hended hstep => exact ⟨_, hbefore, hended, hstep⟩

end Reaches

end Unwinding
