import Unwinding.Proofs.Expression.Reference
import Unwinding.Proofs.Outcome

/-!
# The stack machine does what the list machine does

The two machines are compared operation by operation. Where they show the same
position and the same values, the list machine's next state is shown by the
array machine as well, unless it has more values than the array has room for;
the array machine then says so. Nothing else tells them apart, and neither can
leave the code.
-/

namespace Unwinding

open ValueStack (capacity)

namespace StackMachine

variable {arch : Arch} {α β : Type} {setting : Setting arch} {machine : StackMachine}
  {list : ListMachine} {pos : Word} {stack : List Word} {opcode : UInt8}

def Inside (setting : Setting arch) (pos : Word) : Prop :=
  setting.code.start ≤ pos ∧ pos ≤ setting.code.stop

/-- Both machines stand at the same place in the code, with the same values. -/
structure Shows (setting : Setting arch) (machine : StackMachine) (list : ListMachine) :
    Prop where
  pos : machine.pos = list.pos
  values : machine.stack.values = list.stack
  inside : Inside setting list.pos

theorem Shows.length_le (h : Shows setting machine list) : list.stack.length ≤ capacity := by
  rw [← h.values, ValueStack.length_values]
  exact machine.stack.size_le

/-- An error that an operation has by itself, and not the run as a whole. -/
def Own (error : ExpressionError) : Prop :=
  error ≠ .stackOverflow ∧ error ≠ .emptyStack ∧ error ≠ .tooManySteps

instance (error : ExpressionError) : Decidable (Own error) :=
  inferInstanceAs (Decidable (_ ∧ _ ∧ _))

/-- What the array machine gives where the list machine gives `expected`. -/
def Follows (setting : Setting arch) (result : Except ExpressionError (Unit × StackMachine))
    (expected : Except ExpressionError ListMachine) : Prop :=
  match expected with
  | .error error => result = .error error ∧ Own error
  | .ok list =>
    (∃ machine, result = .ok ((), machine) ∧ Shows setting machine list) ∨
      list.stack.length = capacity + 1 ∧ result = .error .stackOverflow

theorem follows_error {error : ExpressionError} (h : Own error) :
    Follows setting (.error error) (.error error) := ⟨rfl, h⟩

section Run

variable (machine) (setting)

theorem run_push (value : Word) :
    (push value).run machine =
      match machine.stack.push value with
      | some stack => .ok ((), { machine with stack })
      | none => .error .stackOverflow := by
  have hget : (push value).run machine =
      (match machine.stack.push value with
        | some stack => (set { machine with stack } : Run Unit)
        | none => throw ExpressionError.stackOverflow).run machine := rfl
  rw [hget]
  cases machine.stack.push value <;> rfl

theorem run_pop (opcode : UInt8) (next : Word → Run α) :
    (pop opcode >>= next).run machine =
      match machine.stack.pop with
      | some (value, stack) => (next value).run { machine with stack }
      | none => .error (.stackUnderflow opcode) := by
  have hget : (pop opcode >>= next).run machine =
      ((match machine.stack.pop with
        | some (value, stack) => (do
          set { machine with stack }
          return value : Run Word)
        | none => throw (.stackUnderflow opcode)) >>= next).run machine := rfl
  rw [hget]
  cases machine.stack.pop <;> rfl

theorem run_peek (opcode : UInt8) (depth : Nat) (next : Word → Run α) :
    (peek opcode depth >>= next).run machine =
      match machine.stack.peek depth with
      | some value => (next value).run machine
      | none => .error (.stackUnderflow opcode) := by
  have hget : (peek opcode depth >>= next).run machine =
      ((match machine.stack.peek depth with
        | some value => (return value : Run Word)
        | none => throw (.stackUnderflow opcode)) >>= next).run machine := rfl
  rw [hget]
  cases machine.stack.peek depth <;> rfl

theorem run_operand (read : Reading MemoryError β) (next : β → Run α) :
    (operand setting read >>= next).run machine =
      match read setting.space ⟨machine.pos, setting.code.stop⟩ with
      | .ok value span => (next value).run { machine with pos := span.pos }
      | .error error _ => .error (.memory error) := by
  have hget : (operand setting read >>= next).run machine =
      ((match read setting.space ⟨machine.pos, setting.code.stop⟩ with
        | .ok value span => (do
          set { machine with pos := span.pos }
          return value : Run β)
        | .error error _ => throw (.memory error)) >>= next).run machine := rfl
  rw [hget]
  cases read setting.space ⟨machine.pos, setting.code.stop⟩ <;> rfl

theorem run_load (access : Except MemoryError β) (next : β → Run α) :
    (load access >>= next).run machine =
      match access with
      | .ok value => (next value).run machine
      | .error error => .error (.memory error) := by
  cases access <;> rfl

theorem run_readRegister (r : Register) (next : Word → Run α) :
    (readRegister setting r >>= next).run machine =
      match setting.file.get r with
      | .ok value => (next value).run machine
      | .error error => .error (.register error) := by
  unfold readRegister
  cases setting.file.get r <;> rfl

theorem run_jump (distance : Int16) :
    (jump setting distance).run machine =
      match ListMachine.destination setting machine.pos distance with
      | .ok pos => .ok ((), { machine with pos })
      | .error error => .error error := by
  have hget : (jump setting distance).run machine =
      (if setting.code.start ≤ machine.pos + distance.toInt64.toUInt64 ∧
          machine.pos + distance.toInt64.toUInt64 ≤ setting.code.stop then
        (set { machine with pos := machine.pos + distance.toInt64.toUInt64 } : Run Unit)
      else throw (.branchOutOfRange (machine.pos + distance.toInt64.toUInt64))).run machine := rfl
  rw [hget]
  unfold ListMachine.destination
  dsimp only
  split <;> rfl

end Run

theorem inside_of_destination {distance : Int16} {target : Word}
    (h : ListMachine.destination setting pos distance = .ok target) : Inside setting target := by
  unfold ListMachine.destination at h
  dsimp only at h
  split at h
  · rename_i hinside
    cases h
    exact hinside
  · cases h

theorem own_of_destination {distance : Int16} {error : ExpressionError}
    (h : ListMachine.destination setting pos distance = .error error) : Own error := by
  unfold ListMachine.destination at h
  dsimp only at h
  split at h
  · cases h
  · cases h
    exact ⟨nofun, nofun, nofun⟩

section Primitives

variable (h : Shows setting machine ⟨pos, stack⟩)

include h

theorem follows_push (value : Word) :
    Follows setting ((push value).run machine) (.ok ⟨pos, value :: stack⟩) := by
  rw [run_push]
  cases hpush : machine.stack.push value with
  | none =>
    have hvalues : machine.stack.values = stack := h.values
    refine .inr ⟨?_, rfl⟩
    rw [List.length_cons, ← hvalues, ValueStack.length_values, ValueStack.push_eq_none.mp hpush]
  | some stack' =>
    refine .inl ⟨_, rfl, h.pos, ?_, h.inside⟩
    rw [ValueStack.values_of_push hpush, h.values]

/-- A value can be put where one has been taken off. -/
theorem follows_push_next (value : Word) (hroom : stack.length < capacity) {next : Run Unit}
    {expected : Except ExpressionError ListMachine}
    (hnext : ∀ machine', Shows setting machine' ⟨pos, value :: stack⟩ →
      Follows setting (next.run machine') expected) :
    Follows setting ((push value >>= fun _ => next).run machine) expected := by
  have hvalues : machine.stack.values = stack := h.values
  rw [StateT.run_bind, run_push]
  cases hpush : machine.stack.push value with
  | none =>
    rw [← hvalues, ValueStack.length_values, ValueStack.push_eq_none.mp hpush] at hroom
    exact absurd hroom (Nat.lt_irrefl _)
  | some stack' =>
    refine hnext { machine with stack := stack' } ⟨h.pos, ?_, h.inside⟩
    rw [ValueStack.values_of_push hpush, hvalues]

theorem follows_pop {value : Word} {rest : List Word} (hstack : stack = value :: rest)
    {next : Word → Run Unit} {expected : Except ExpressionError ListMachine}
    (hnext : ∀ machine', Shows setting machine' ⟨pos, rest⟩ →
      Follows setting ((next value).run machine') expected) :
    Follows setting ((pop opcode >>= next).run machine) expected := by
  have hvalues : machine.stack.values = value :: rest := h.values.trans hstack
  rw [run_pop]
  cases hpop : machine.stack.pop with
  | none =>
    rw [ValueStack.pop_eq_none.mp hpop] at hvalues
    cases hvalues
  | some popped =>
    rw [ValueStack.values_of_pop hpop] at hvalues
    cases hvalues
    exact hnext { machine with stack := popped.2 } ⟨h.pos, rfl, h.inside⟩

theorem follows_pop_nil (hstack : stack = []) {next : Word → Run Unit} :
    Follows setting ((pop opcode >>= next).run machine) (.error (.stackUnderflow opcode)) := by
  have hpop : machine.stack.pop = none := ValueStack.pop_eq_none.mpr (h.values.trans hstack)
  rw [run_pop, hpop]
  exact follows_error ⟨nofun, nofun, nofun⟩

theorem follows_push_peek (depth : Nat) :
    Follows setting ((peek opcode depth >>= push).run machine)
      (match stack[depth]? with
        | some value => .ok ⟨pos, value :: stack⟩
        | none => .error (.stackUnderflow opcode)) := by
  rw [run_peek, ValueStack.peek_eq, h.values]
  cases stack[depth]? with
  | none => exact follows_error ⟨nofun, nofun, nofun⟩
  | some value => exact follows_push h value

theorem follows_operand {read : Reading MemoryError α} (hread : read.Confined)
    {next : α → Run Unit} {rest : α × Word → Except ExpressionError ListMachine}
    (hnext : ∀ value pos' machine', Shows setting machine' ⟨pos', stack⟩ →
      Follows setting ((next value).run machine') (rest (value, pos'))) :
    Follows setting ((operand setting read >>= next).run machine)
      (ListMachine.fetch setting read pos >>= rest) := by
  obtain ⟨hfrom, hto⟩ := h.inside
  have hsame := hread.same setting.space setting.code.start setting.code.stop
    ⟨pos, setting.code.stop⟩ hfrom hto (UInt64.le_refl _)
  have hleaves := hread.leaves setting.space ⟨pos, setting.code.stop⟩ hto
  have hpos : machine.pos = pos := h.pos
  rw [run_operand, hpos]
  unfold ListMachine.fetch
  rw [hsame]
  cases hat : read setting.space ⟨pos, setting.code.stop⟩ with
  | error error span => exact follows_error ⟨nofun, nofun, nofun⟩
  | ok value span =>
    rw [hat] at hleaves
    exact hnext value span.pos { machine with pos := span.pos }
      ⟨rfl, h.values, UInt64.le_trans hfrom hleaves.forward, hleaves.inside⟩

theorem follows_jump (distance : Int16) :
    Follows setting ((jump setting distance).run machine)
      (do return ⟨← ListMachine.destination setting pos distance, stack⟩) := by
  have hpos : machine.pos = pos := h.pos
  rw [run_jump, hpos]
  cases hto : ListMachine.destination setting pos distance with
  | error error => exact follows_error (own_of_destination hto)
  | ok target => exact .inl ⟨_, rfl, rfl, h.values, inside_of_destination hto⟩

omit h

theorem follows_readRegister (r : Register) {next : Word → Run Unit}
    {rest : Word → Except ExpressionError ListMachine}
    (hnext : ∀ value, Follows setting ((next value).run machine) (rest value)) :
    Follows setting ((readRegister setting r >>= next).run machine)
      (ListMachine.register setting r >>= rest) := by
  rw [run_readRegister]
  unfold ListMachine.register
  cases setting.file.get r with
  | error error => exact follows_error ⟨nofun, nofun, nofun⟩
  | ok value => exact hnext value

theorem follows_load (access : Except MemoryError α) {next : α → Run Unit}
    {rest : α → Except ExpressionError ListMachine}
    (hnext : ∀ value, Follows setting ((next value).run machine) (rest value)) :
    Follows setting ((load access >>= next).run machine)
      (access.mapError .memory >>= rest) := by
  rw [run_load]
  cases access with
  | error error => exact follows_error ⟨nofun, nofun, nofun⟩
  | ok value => exact hnext value

theorem loadSized_eq (setting : Setting arch) (size : UInt8) (address : Word) :
    (∃ access, loadSized setting size address = load access ∧
      ListMachine.loaded setting size address = access.mapError .memory) ∨
    loadSized setting size address = throw (.badDerefSize size) ∧
      ListMachine.loaded setting size address = .error (.badDerefSize size) := by
  have hextended {γ : Type} (access : Except MemoryError γ) (extend : γ → Word) :
      (do return extend (← load access)) = load (access.map extend) := by cases access <;> rfl
  by_cases hone : size = 1
  · subst hone
    exact .inl ⟨_, hextended (setting.space.get8 address) (·.toUInt64), rfl⟩
  by_cases htwo : size = 2
  · subst htwo
    exact .inl ⟨_, hextended (setting.space.get16 address) (·.toUInt64), rfl⟩
  by_cases hfour : size = 4
  · subst hfour
    exact .inl ⟨_, hextended (setting.space.get32 address) (·.toUInt64), rfl⟩
  by_cases height : size = 8
  · subst height
    exact .inl ⟨setting.space.get64 address, rfl, rfl⟩
  refine .inr ⟨?_, ?_⟩
  · unfold loadSized
    split <;> first | contradiction | rfl
  · unfold ListMachine.loaded
    split <;> first | contradiction | rfl

theorem follows_loadSized (size : UInt8) (address : Word) {next : Word → Run Unit}
    {rest : Word → Except ExpressionError ListMachine}
    (hnext : ∀ value, Follows setting ((next value).run machine) (rest value)) :
    Follows setting ((loadSized setting size address >>= next).run machine)
      (ListMachine.loaded setting size address >>= rest) := by
  rcases loadSized_eq setting size address with ⟨access, hload, hloaded⟩ | ⟨hload, hloaded⟩
  · rw [hload, hloaded]
    exact follows_load access hnext
  · rw [hload, hloaded]
    exact follows_error ⟨nofun, nofun, nofun⟩

end Primitives

/-- Each of the 256 opcodes either has an operation or fails by itself. -/
theorem own_of_ofByte {error : ExpressionError} (h : Operation.ofByte opcode = .error error) :
    Own error := by
  have hbytes : ∀ n < 256, (match Operation.ofByte (UInt8.ofNat n) with
      | .ok _ => true
      | .error error => decide (Own error)) = true := by decide +kernel
  have hbyte := hbytes opcode.toNat opcode.toNat_lt
  rw [UInt8.ofNat_toNat, h] at hbyte
  exact of_decide_eq_true hbyte

theorem apply_eq (op : BinaryOp) (second top : Word) :
    (∃ value, op.apply second top = .ok value) ∨ op.apply second top = .error .divisionByZero := by
  unfold BinaryOp.apply
  cases op
  case div | mod =>
    by_cases hzero : top = 0
    · exact .inr (if_pos hzero)
    · exact .inl ⟨_, if_neg hzero⟩
  case shl | shr | shra => cases BinaryOp.places top <;> exact .inl ⟨_, rfl⟩
  all_goals exact .inl ⟨_, rfl⟩

section Operations

variable (h : Shows setting machine ⟨pos, stack⟩)

include h

theorem follows_pick : Follows setting ((execute setting opcode .pick).run machine)
    (ListMachine.effect setting opcode .pick ⟨pos, stack⟩) := by
  refine follows_operand h Reading.confined_u8 fun depth pos' machine' h' => ?_
  have hpeek : Follows setting ((peek opcode depth.toNat >>= push).run machine') _ :=
    follows_push_peek h' depth.toNat
  dsimp only
  cases hat : stack[depth.toNat]? with
  | none =>
    rw [hat] at hpeek
    exact hpeek
  | some value =>
    rw [hat] at hpeek
    exact hpeek

theorem follows_swap : Follows setting ((execute setting opcode .swap).run machine)
    (ListMachine.effect setting opcode .swap ⟨pos, stack⟩) := by
  have hlength : stack.length ≤ capacity := h.length_le
  match stack with
  | [] => exact follows_pop_nil h rfl
  | [a] => exact follows_pop h rfl fun _ h₁ => follows_pop_nil h₁ rfl
  | a :: b :: stack =>
    rw [List.length_cons, List.length_cons] at hlength
    refine follows_pop h rfl fun _ h₁ => follows_pop h₁ rfl fun _ h₂ => ?_
    exact follows_push_next h₂ a (by omega) fun _ h₃ => follows_push h₃ b

theorem follows_rot : Follows setting ((execute setting opcode .rot).run machine)
    (ListMachine.effect setting opcode .rot ⟨pos, stack⟩) := by
  have hlength : stack.length ≤ capacity := h.length_le
  match stack with
  | [] => exact follows_pop_nil h rfl
  | [a] => exact follows_pop h rfl fun _ h₁ => follows_pop_nil h₁ rfl
  | [a, b] =>
    exact follows_pop h rfl fun _ h₁ => follows_pop h₁ rfl fun _ h₂ => follows_pop_nil h₂ rfl
  | a :: b :: c :: stack =>
    rw [List.length_cons, List.length_cons, List.length_cons] at hlength
    refine follows_pop h rfl fun _ h₁ => follows_pop h₁ rfl fun _ h₂ => ?_
    refine follows_pop h₂ rfl fun _ h₃ => follows_push_next h₃ a (by omega) fun _ h₄ => ?_
    refine follows_push_next h₄ c ?_ fun _ h₅ => follows_push h₅ b
    rw [List.length_cons]
    omega

theorem follows_branch : Follows setting ((execute setting opcode .branch).run machine)
    (ListMachine.effect setting opcode .branch ⟨pos, stack⟩) := by
  refine follows_operand h (Reading.confined_u16.map _) fun distance pos' machine' h' => ?_
  match stack with
  | [] => exact follows_pop_nil h' rfl
  | flag :: stack =>
    refine follows_pop h' rfl fun machine₁ h₁ => ?_
    by_cases hzero : flag = 0
    · dsimp only
      rw [if_neg (not_not_intro hzero), if_pos hzero]
      exact .inl ⟨machine₁, rfl, h₁⟩
    · dsimp only
      rw [if_pos hzero, if_neg hzero]
      exact follows_jump h₁ distance

theorem execute_follows (operation : Operation) :
    Follows setting ((execute setting opcode operation).run machine)
      (ListMachine.effect setting opcode operation ⟨pos, stack⟩) := by
  cases operation with
  | constant form =>
    exact follows_operand h form.confined_read fun value pos' machine' h' => follows_push h' value
  | literal value => exact follows_push h value
  | dup =>
    have hpeek : Follows setting ((peek opcode 0 >>= push).run machine) _ := follows_push_peek h 0
    match stack with
    | [] => exact hpeek
    | a :: stack => exact hpeek
  | drop =>
    match stack with
    | [] => exact follows_pop_nil h rfl
    | a :: stack => exact follows_pop h rfl fun machine' h' => .inl ⟨machine', rfl, h'⟩
  | «over» =>
    have hpeek : Follows setting ((peek opcode 1 >>= push).run machine) _ := follows_push_peek h 1
    match stack with
    | [] => exact hpeek
    | [a] => exact hpeek
    | a :: b :: stack => exact hpeek
  | pick => exact follows_pick h
  | swap => exact follows_swap h
  | rot => exact follows_rot h
  | deref =>
    match stack with
    | [] => exact follows_pop_nil h rfl
    | address :: stack =>
      exact follows_pop h rfl fun _ h₁ =>
        follows_load (setting.space.pointer address) fun value => follows_push h₁ value
  | spaceDeref =>
    match stack with
    | [] => exact follows_pop_nil h rfl
    | [address] => exact follows_pop h rfl fun _ h₁ => follows_pop_nil h₁ rfl
    | address :: b :: stack =>
      exact follows_pop h rfl fun _ h₁ => follows_pop h₁ rfl fun _ h₂ =>
        follows_load (setting.space.pointer address) fun value => follows_push h₂ value
  | derefSize =>
    refine follows_operand h Reading.confined_u8 fun size pos' machine' h' => ?_
    match stack with
    | [] => exact follows_pop_nil h' rfl
    | address :: stack =>
      exact follows_pop h' rfl fun _ h₁ =>
        follows_loadSized size address fun value => follows_push h₁ value
  | spaceDerefSize =>
    refine follows_operand h Reading.confined_u8 fun size pos' machine' h' => ?_
    match stack with
    | [] => exact follows_pop_nil h' rfl
    | [address] => exact follows_pop h' rfl fun _ h₁ => follows_pop_nil h₁ rfl
    | address :: b :: stack =>
      exact follows_pop h' rfl fun _ h₁ => follows_pop h₁ rfl fun _ h₂ =>
        follows_loadSized size address fun value => follows_push h₂ value
  | unary op =>
    match stack with
    | [] => exact follows_pop_nil h rfl
    | a :: stack => exact follows_pop h rfl fun _ h₁ => follows_push h₁ (op.apply a)
  | binary op =>
    match stack with
    | [] => exact follows_pop_nil h rfl
    | [top] => exact follows_pop h rfl fun _ h₁ => follows_pop_nil h₁ rfl
    | top :: second :: stack =>
      refine follows_pop h rfl fun _ h₁ => follows_pop h₁ rfl fun _ h₂ => ?_
      dsimp only [ListMachine.effect]
      rcases apply_eq op second top with ⟨value, hvalue⟩ | hdivision
      · rw [hvalue]
        exact follows_push h₂ value
      · rw [hdivision]
        exact follows_error ⟨nofun, nofun, nofun⟩
  | plusConstant =>
    match stack with
    | [] => exact follows_pop_nil h rfl
    | a :: stack =>
      exact follows_pop h rfl fun _ h₁ => follows_operand h₁ Reading.confined_uleb128
        fun n _ _ h₂ => follows_push h₂ (a + n)
  | skip =>
    exact follows_operand h (Reading.confined_u16.map _) fun distance pos' machine' h' =>
      follows_jump h' distance
  | branch => exact follows_branch h
  | register r => exact follows_readRegister r fun value => follows_push h value
  | registerOperand =>
    exact follows_operand h Reading.confined_uleb128 fun r _ _ h₁ =>
      follows_readRegister (registerNumber r) fun value => follows_push h₁ value
  | based r =>
    exact follows_readRegister r fun base => follows_operand h Reading.confined_sleb128
      fun offset _ _ h₁ => follows_push h₁ (base + offset.toUInt64)
  | basedOperand =>
    exact follows_operand h Reading.confined_uleb128 fun r _ _ h₁ =>
      follows_readRegister (registerNumber r) fun base =>
        follows_operand h₁ Reading.confined_sleb128 fun offset _ _ h₂ =>
          follows_push h₂ (base + offset.toUInt64)
  | nop => exact .inl ⟨machine, rfl, h⟩

end Operations

theorem step_follows (h : Shows setting machine list) :
    Follows setting ((step setting).run machine) (ListMachine.next setting list) := by
  refine follows_operand h Reading.confined_u8 fun opcode pos' machine' h' => ?_
  dsimp only
  cases hoperation : Operation.ofByte opcode with
  | error error => exact follows_error (own_of_ofByte hoperation)
  | ok operation => exact execute_follows h' operation

end StackMachine

end Unwinding
