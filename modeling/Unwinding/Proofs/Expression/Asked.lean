import Unwinding.Proofs.Expression.Refinement
import Unwinding.Proofs.Registers.Content

/-!
# The registers that an expression asks for

Four operations take a value from a register, two of them from the one whose number is an
operand, which can be any number. An expression that is evaluated over two register files
has the same value over both, or the same error, unless it asks for a register in which
they differ.
-/

namespace Unwinding

variable {arch : Arch}

namespace RegisterFile

/-- The files differ in no register but `hidden`. -/
def AlikeBut (hidden : Register) (file file' : RegisterFile arch) : Prop :=
  ∀ s, arch.slot hidden ≠ some s → file.content s = file'.content s

variable {hidden r : Register} {file file' : RegisterFile arch}

theorem AlikeBut.content (h : file.AlikeBut hidden file') (hr : r ≠ hidden) {s : Slot}
    (hs : arch.slot r = some s) : file.content s = file'.content s :=
  h s fun hhidden => hr (Arch.slot_inj hs hhidden)

theorem AlikeBut.get (h : file.AlikeBut hidden file') (hr : r ≠ hidden) :
    file.get r = file'.get r := by
  unfold RegisterFile.get
  cases hs : arch.slot r with
  | none => rfl
  | some s =>
    have hcontent := h.content hr hs
    cases s with
    | integer i => exact congrArg Except.ok (RegisterValue.word.inj hcontent)
    | ip => exact congrArg Except.ok (RegisterValue.word.inj hcontent)
    | float i => rfl
    | vector i => rfl

theorem AlikeBut.getFloat (h : file.AlikeBut hidden file') (hr : r ≠ hidden) :
    file.getFloat r = file'.getFloat r := by
  unfold RegisterFile.getFloat
  cases hs : arch.slot r with
  | none => rfl
  | some s =>
    have hcontent := h.content hr hs
    cases s with
    | float i => exact congrArg Except.ok (RegisterValue.float.inj hcontent)
    | _ => rfl

theorem AlikeBut.getVector (h : file.AlikeBut hidden file') (hr : r ≠ hidden) :
    file.getVector r = file'.getVector r := by
  unfold RegisterFile.getVector
  cases hs : arch.slot r with
  | none => rfl
  | some s =>
    have hcontent := h.content hr hs
    cases s with
    | vector i => exact congrArg Except.ok (RegisterValue.vector.inj hcontent)
    | _ => rfl

end RegisterFile

namespace StackMachine

variable {space : AddressSpace} {code : Expression} {file file' : RegisterFile arch}
  {hidden r : Register} {machine : StackMachine}

/-- The register that an operation takes a value from, if it takes one. -/
def askedBy (setting : Setting arch) (machine : StackMachine) : Operation → Option Register
  | .register r | .based r => some r
  | .registerOperand | .basedOperand =>
    match Reading.uleb128 setting.space ⟨machine.pos, setting.code.stop⟩ with
    | .ok number _ => some (registerNumber number)
    | .error _ _ => none
  | _ => none

/-- The register that the next operation takes a value from. -/
def asked (setting : Setting arch) (machine : StackMachine) : Option Register :=
  match Reading.u8 setting.space ⟨machine.pos, setting.code.stop⟩ with
  | .error _ _ => none
  | .ok opcode rest =>
    match Operation.ofByte opcode with
    | .ok operation => askedBy setting { machine with pos := rest.pos } operation
    | .error _ => none

theorem execute_congr (halike : file.AlikeBut hidden file') {opcode : UInt8} {operation : Operation}
    (hasked : askedBy ⟨space, file, code⟩ machine operation ≠ some hidden) :
    (execute ⟨space, file, code⟩ opcode operation).run machine =
      (execute ⟨space, file', code⟩ opcode operation).run machine := by
  cases operation with
  | register r | based r =>
    have hr : r ≠ hidden := fun h => hasked (congrArg some h)
    simp only [execute, run_readRegister, run_operand]
    rw [halike.get hr]
  | registerOperand | basedOperand =>
    simp only [execute, run_readRegister, run_operand]
    unfold askedBy at hasked
    dsimp only at hasked
    cases hnumber : Reading.uleb128 space ⟨machine.pos, code.stop⟩ with
    | error error rest => rfl
    | ok number rest =>
      rw [hnumber] at hasked
      dsimp only
      rw [halike.get fun h => hasked (congrArg some h)]
  | _ => rfl

theorem next_congr (halike : file.AlikeBut hidden file')
    (hasked : asked ⟨space, file, code⟩ machine ≠ some hidden) :
    next ⟨space, file, code⟩ machine = next ⟨space, file', code⟩ machine := by
  unfold next step
  rw [run_operand, run_operand]
  unfold asked at hasked
  dsimp only at hasked ⊢
  cases hopcode : Reading.u8 space ⟨machine.pos, code.stop⟩ with
  | error error rest => rfl
  | ok opcode rest =>
    rw [hopcode] at hasked
    dsimp only at hasked ⊢
    cases hoperation : Operation.ofByte opcode with
    | error error => rfl
    | ok operation =>
      rw [hoperation] at hasked
      exact congrArg _ (execute_congr halike hasked)

theorem run_congr (halike : file.AlikeBut hidden file') {left : Nat}
    (hasked : ∀ n < left, ∀ state, Reaches (next ⟨space, file, code⟩) (Over ⟨space, file, code⟩)
      machine n state → ¬ Over ⟨space, file, code⟩ state →
      asked ⟨space, file, code⟩ state ≠ some hidden) :
    run ⟨space, file, code⟩ left machine = run ⟨space, file', code⟩ left machine := by
  induction left generalizing machine with
  | zero => rfl
  | succ left ih =>
    by_cases hover : Over ⟨space, file, code⟩ machine
    · have hover' : Over ⟨space, file', code⟩ machine := hover
      rw [run_over hover, run_over hover']
    · have hover' : ¬ Over ⟨space, file', code⟩ machine := hover
      have hnext := next_congr halike (hasked 0 (Nat.succ_pos left) machine .start hover)
      rw [run_succ hover, run_succ hover', ← hnext]
      cases hstep : next ⟨space, file, code⟩ machine with
      | error error => rfl
      | ok middle =>
        refine ih fun n hn state hreaches => ?_
        exact hasked (n + 1) (Nat.succ_lt_succ hn) state (hreaches.first hover hstep)

end StackMachine

namespace Expression

variable {code : Expression} {space : AddressSpace} {file file' : RegisterFile arch}
  {initial : Word} {hidden : Register}

/-- An operation of the run takes a value from the register. -/
def Asks (code : Expression) (space : AddressSpace) (file : RegisterFile arch) (initial : Word)
    (r : Register) : Prop :=
  ∃ n < StackMachine.budget, ∃ machine,
    StackMachine.Reached ⟨space, file, code⟩ initial n machine ∧
      ¬ StackMachine.Over ⟨space, file, code⟩ machine ∧
      StackMachine.asked ⟨space, file, code⟩ machine = some r

theorem evaluate_congr (halike : file.AlikeBut hidden file')
    (hasks : ¬ code.Asks space file initial hidden) :
    code.evaluate space file initial = code.evaluate space file' initial := by
  unfold evaluate
  cases hstack : ValueStack.empty.push initial with
  | none => rfl
  | some stack =>
    have hrun : StackMachine.run ⟨space, file, code⟩ StackMachine.budget ⟨code.start, stack⟩ =
        StackMachine.run ⟨space, file', code⟩ StackMachine.budget ⟨code.start, stack⟩ :=
      StackMachine.run_congr halike fun n hn state hreaches hover hasked =>
        hasks ⟨n, hn, state, ⟨stack, hstack, hreaches⟩, hover, hasked⟩
    dsimp only
    rw [hrun]

end Expression

end Unwinding
