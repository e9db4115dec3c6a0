import Unwinding.Proofs.Expression.Refinement
import Unwinding.Proofs.Expression.Term

/-!
# Shifts

A shift is an operation on integers: to the left it multiplies by a power of two, to the
right it divides by one and rounds down, and its count is any word. The machine looks at
the low half of the count only. Both agree unless the count does not fit that half and
what the low half alone says would leave something of the value; then the machine answers
with that.

An expression is evaluated here with the operators as a parameter, so that the machine can
be compared with one that calculates with integers.
-/

namespace Unwinding

section Words

theorem signed_bounds (value : Word) : -2 ^ 63 ≤ signed value ∧ signed value < 2 ^ 63 := by
  constructor
  · exact value.toInt64.minValue_le_toInt
  · have hle := value.toInt64.toInt_le
    change signed value ≤ 2 ^ 63 - 1 at hle
    omega

theorem signed_inj {value value' : Word} : signed value = signed value' ↔ value = value' := by
  constructor
  · intro h
    rw [← ofInt_signed value, h, ofInt_signed]
  · exact congrArg signed

theorem signed_ofInt {n : Int} (hlow : -2 ^ 63 ≤ n) (hhigh : n < 2 ^ 63) :
    signed (UInt64.ofInt n) = n := by
  rw [← toUInt64_ofInt, signed, Int64.toInt64_toUInt64]
  exact Int64.toInt_ofInt_of_le hlow hhigh

theorem ofInt_eq_zero_iff {n : Int} : UInt64.ofInt n = 0 ↔ (2 ^ 64 : Int) ∣ n := by
  have hlt : n % 2 ^ 64 < 2 ^ 64 := Int.emod_lt_of_pos n (by decide)
  have hpos : 0 ≤ n % 2 ^ 64 := Int.emod_nonneg n (by decide)
  have hsmall : (n % 2 ^ 64).toNat < UInt64.size := by
    change (n % 2 ^ 64).toNat < 2 ^ 64
    omega
  rw [← UInt64.toNat_inj, Int.dvd_iff_emod_eq_zero, UInt64.ofInt,
    UInt64.toNat_ofNat_of_lt' hsmall]
  change (n % 2 ^ 64).toNat = 0 ↔ _
  omega

end Words

namespace BinaryOp

/-- The integer that a shift by `count` places gives, for the operations that shift. -/
def shifted (op : BinaryOp) (second : Word) (count : Nat) : Option Int :=
  match op with
  | shl => some (second.toNat * 2 ^ count)
  | shr => some (second.toNat / 2 ^ count)
  | shra => some (signed second / 2 ^ count)
  | _ => none

/-- The operators on integers modulo `2 ^ 64`, for a way to take the count of a shift. -/
def counting (count : Word → Nat) (op : BinaryOp) (second top : Word) :
    Except ExpressionError Word :=
  match op.shifted second (count top) with
  | some n => .ok (UInt64.ofInt n)
  | none =>
    match op.arithmetic second top with
    | some value => .ok value
    | none => .error .divisionByZero

/-- The operators with the whole count. -/
def exact : BinaryOp → Word → Word → Except ExpressionError Word := counting UInt64.toNat

def lowHalf (count : Word) : Nat := count.toNat % 2 ^ 32

/-- A shift that leaves nothing of the value but its sign. -/
def Spends (op : BinaryOp) (second : Word) (count : Nat) : Prop :=
  match op with
  | shl => 2 ^ 64 ∣ second.toNat * 2 ^ count
  | shr => second.toNat < 2 ^ count
  | shra => -2 ^ count ≤ signed second ∧ signed second < 2 ^ count
  | _ => True

/-- What such a shift leaves. -/
def spent (op : BinaryOp) (second : Word) : Word :=
  if op = shra ∧ signed second < 0 then -1 else 0

/-- The count does not fit its low half, which would leave something. -/
def Cuts (op : BinaryOp) (second top : Word) : Prop :=
  2 ^ 32 ≤ top.toNat ∧ ¬ op.Spends second (lowHalf top)

variable {op : BinaryOp} {second top : Word} {count count' : Nat} {n : Int}

section Spent

theorem spends_of_wide (hcount : 64 ≤ count) : op.Spends second count := by
  have hnat : 2 ^ 64 ≤ 2 ^ count := Nat.pow_le_pow_right (by decide) hcount
  have hint : (2 : Int) ^ 64 ≤ 2 ^ count := by exact_mod_cast hnat
  cases op with
  | shl => exact Nat.dvd_mul_left_of_dvd (Nat.pow_dvd_pow 2 hcount) _
  | shr => exact Nat.lt_of_lt_of_le second.toNat_lt hnat
  | shra =>
    have hbounds := signed_bounds second
    unfold Spends
    constructor <;> omega
  | _ => trivial

theorem shl_spent_iff :
    UInt64.ofInt (second.toNat * 2 ^ count) = 0 ↔ shl.Spends second count := by
  rw [ofInt_eq_zero_iff, Spends]
  norm_cast

theorem shr_spent_iff :
    UInt64.ofInt (second.toNat / 2 ^ count) = 0 ↔ shr.Spends second count := by
  have hlt : second.toNat / 2 ^ count < 2 ^ 64 :=
    Nat.lt_of_le_of_lt (Nat.div_le_self _ _) second.toNat_lt
  rw [ofInt_eq_zero_iff, Spends, ← Nat.div_eq_zero_iff_lt (Nat.two_pow_pos count)]
  norm_cast
  constructor
  · exact fun hdvd => Nat.eq_zero_of_dvd_of_lt hdvd hlt
  · exact fun hzero => hzero ▸ Nat.dvd_zero _

theorem shra_spent_iff :
    UInt64.ofInt (signed second / 2 ^ count) = shra.spent second ↔ shra.Spends second count := by
  have hbounds := signed_bounds second
  have hpos : (0 : Int) < 2 ^ count := Int.pow_pos (by decide)
  have hle (m : Int) : m ≤ signed second / 2 ^ count ↔ m * 2 ^ count ≤ signed second :=
    Int.le_ediv_iff_mul_le hpos
  have hword : signed (UInt64.ofInt (signed second / 2 ^ count)) = signed second / 2 ^ count := by
    apply signed_ofInt
    · rw [hle]
      omega
    · rw [Int.ediv_lt_iff_lt_mul hpos]
      omega
  have hminus := hle (-1)
  have hzero := hle 0
  have hone := hle 1
  rw [← signed_inj, hword, Spends, spent]
  by_cases hneg : signed second < 0
  · rw [if_pos ⟨rfl, hneg⟩, show signed (-1) = -1 from rfl]
    omega
  · rw [if_neg (fun h => hneg h.2), show signed 0 = 0 from rfl]
    omega

theorem spent_of_ne (h : op ≠ shra) : op.spent second = 0 := if_neg fun hop => h hop.1

theorem spent_iff (h : op.shifted second count = some n) :
    UInt64.ofInt n = op.spent second ↔ op.Spends second count := by
  cases op with
  | shl =>
    cases h
    rw [spent_of_ne (by decide), shl_spent_iff]
  | shr =>
    cases h
    rw [spent_of_ne (by decide), shr_spent_iff]
  | shra =>
    cases h
    exact shra_spent_iff
  | _ => cases h

end Spent

section Counting

theorem shifted_eq_none (h : op.shifted second count = none) (count' : Nat) :
    op.shifted second count' = none := by
  cases op with
  | shl | shr | shra => cases h
  | _ => rfl

theorem exists_shifted (h : op.shifted second count = some n) (count' : Nat) :
    ∃ n', op.shifted second count' = some n' := by
  cases op with
  | shl | shr | shra => exact ⟨_, rfl⟩
  | _ => cases h

theorem spends_of_not_shifted (h : op.shifted second count = none) (count' : Nat) :
    op.Spends second count' := by
  cases op with
  | shl | shr | shra => cases h
  | _ => trivial

theorem counting_of_shifted {take : Word → Nat} (h : op.shifted second (take top) = some n) :
    op.counting take second top = .ok (UInt64.ofInt n) := by
  rw [counting, h]

/-- A count of 64 or more leaves zero, or minus one if the sign is kept. -/
theorem counting_of_wide {take : Word → Nat} (h : op.shifted second (take top) = some n)
    (hwide : 64 ≤ take top) : op.counting take second top = .ok (op.spent second) := by
  rw [counting_of_shifted h, (spent_iff h).mpr (spends_of_wide hwide)]

theorem counting_congr {take take' : Word → Nat}
    (h : take top = take' top ∨ 64 ≤ take top ∧ 64 ≤ take' top) :
    op.counting take second top = op.counting take' second top := by
  rcases h with heq | ⟨hwide, hwide'⟩
  · rw [counting, counting, heq]
  · cases hshifted : op.shifted second (take top) with
    | none => rw [counting, counting, hshifted, shifted_eq_none hshifted]
    | some n =>
      obtain ⟨n', hshifted'⟩ := exists_shifted hshifted (take' top)
      rw [counting_of_wide hshifted hwide, counting_of_wide hshifted' hwide']

/-- No count needs to be taken as more than 64. -/
theorem exact_eq_capped : exact = counting fun count => min count.toNat 64 := by
  funext op second top
  exact counting_congr (by omega)

theorem places_eq (top : Word) :
    places top = if lowHalf top < 64 then some (UInt64.ofNat (lowHalf top)) else none := by
  have hlow : top.toUInt32.toNat = lowHalf top := UInt64.toNat_toUInt32 top
  have hword : top.toUInt32.toUInt64 = UInt64.ofNat (lowHalf top) := by
    rw [← hlow]
    exact (UInt64.ofNat_uInt32ToNat _).symm
  have hlt : top.toUInt32 < 64 ↔ lowHalf top < 64 := by
    rw [UInt32.lt_iff_toNat_lt, hlow]
    rfl
  unfold places
  simp only [hlt, hword]

/-- A count below 64 is not cut by the shifts of words. -/
theorem toNat_count (hcount : count < 64) : (UInt64.ofNat count).toNat % 64 = count := by
  rw [UInt64.toNat_ofNat_of_lt' (Nat.lt_trans hcount (by decide)), Nat.mod_eq_of_lt hcount]

theorem shiftLeft_ofNat (hcount : count < 64) :
    second <<< UInt64.ofNat count = UInt64.ofInt (second.toNat * 2 ^ count) := by
  rw [← ofInt_toNat (second <<< _), UInt64.toNat_shiftLeft, toNat_count hcount, Nat.shiftLeft_eq,
    Int.natCast_emod, UInt64.ofInt, UInt64.ofInt, Int.natCast_mul, Int.natCast_pow]
  exact congrArg (fun n => UInt64.ofNat n.toNat) (Int.emod_emod_of_dvd _ (Int.dvd_refl _))

theorem shiftRight_ofNat (hcount : count < 64) :
    second >>> UInt64.ofNat count = UInt64.ofInt (second.toNat / 2 ^ count) := by
  rw [← ofInt_toNat (second >>> _), UInt64.toNat_shiftRight, toNat_count hcount,
    Nat.shiftRight_eq_div_pow]
  norm_cast

theorem signedShiftRight_ofNat (hcount : count < 64) :
    (second.toInt64 >>> (UInt64.ofNat count).toInt64).toUInt64 =
      UInt64.ofInt (signed second / 2 ^ count) := by
  have hplaces : ∀ n < 64, ((UInt64.ofNat n).toInt64.toBitVec.smod 64).toNat = n := by decide
  rw [← ofInt_toInt, ← Int64.toInt_toBitVec, Int64.toBitVec_shiftRight, BitVec.sshiftRight',
    BitVec.toInt_sshiftRight, hplaces count hcount, Int.shiftRight_eq_div_pow]
  norm_cast

theorem apply_of_no_arithmetic (hshifted : op.shifted second count = none)
    (harithmetic : op.arithmetic second top = none) :
    op.apply second top = .error .divisionByZero := by
  cases op with
  | div | mod =>
    simp only [arithmetic, ite_eq_left_iff, reduceCtorEq, imp_false,
      Decidable.not_not] at harithmetic
    exact if_pos harithmetic
  | shl | shr | shra => cases hshifted
  | _ => cases harithmetic

theorem apply_eq_counting (op : BinaryOp) (second top : Word) :
    op.apply second top = op.counting lowHalf second top := by
  cases hshifted : op.shifted second (lowHalf top) with
  | none =>
    rw [counting, hshifted]
    cases harithmetic : op.arithmetic second top with
    | none => exact apply_of_no_arithmetic hshifted harithmetic
    | some value => exact apply_of_arithmetic harithmetic
  | some n =>
    by_cases hlow : lowHalf top < 64
    · have hplaces := (places_eq top).trans (if_pos hlow)
      rw [counting_of_shifted hshifted]
      cases op with
      | shl =>
        cases hshifted
        rw [apply, hplaces, ← shiftLeft_ofNat hlow]
      | shr =>
        cases hshifted
        rw [apply, hplaces, ← shiftRight_ofNat hlow]
      | shra =>
        cases hshifted
        rw [apply, hplaces, ← signedShiftRight_ofNat hlow]
      | _ => cases hshifted
    · have hplaces := (places_eq top).trans (if_neg hlow)
      rw [counting_of_wide hshifted (Nat.le_of_not_lt hlow)]
      cases op with
      | shl | shr =>
        rw [apply, hplaces, spent_of_ne (by decide)]
      | shra =>
        rw [apply, hplaces, spent]
        simp only [Int64.lt_iff_toInt_lt, true_and]
        rfl
      | _ => cases hshifted

theorem apply_eq_exact_iff (op : BinaryOp) (second top : Word) :
    op.apply second top = op.exact second top ↔ ¬ op.Cuts second top := by
  rw [apply_eq_counting, exact, Cuts]
  by_cases hwide : 2 ^ 32 ≤ top.toNat
  · cases hshifted : op.shifted second (lowHalf top) with
    | none =>
      have hspends := spends_of_not_shifted hshifted (lowHalf top)
      rw [counting, counting, hshifted, shifted_eq_none hshifted top.toNat]
      simp only [hspends, not_true_eq_false, and_false, not_false_eq_true]
    | some n =>
      obtain ⟨n', hshifted'⟩ := exists_shifted hshifted top.toNat
      rw [counting_of_shifted hshifted, counting_of_wide hshifted' (by omega), Except.ok.injEq,
        spent_iff hshifted]
      simp only [hwide, true_and, Classical.not_not]
  · have hlow : lowHalf top = top.toNat := Nat.mod_eq_of_lt (Nat.lt_of_not_le hwide)
    simp only [counting_congr (.inl hlow), hwide, false_and, not_false_eq_true]

end Counting

end BinaryOp

namespace StackMachine

variable {arch : Arch}

/-- An operation with other operators on two words. -/
def executeWith (operators : BinaryOp → Word → Word → Except ExpressionError Word)
    (setting : Setting arch) (opcode : UInt8) : Operation → Run Unit
  | .binary op => do
    let top ← pop opcode
    let second ← pop opcode
    push (← liftM (operators op second top))
  | operation => execute setting opcode operation

def nextWith (operators : BinaryOp → Word → Word → Except ExpressionError Word)
    (setting : Setting arch) (machine : StackMachine) : Except ExpressionError StackMachine :=
  let step : Run Unit := do
    let opcode ← operand setting Reading.u8
    let operation ← liftM (Operation.ofByte opcode)
    executeWith operators setting opcode operation
  (·.2) <$> step.run machine

/-- A run to the end of the code whose steps are given. -/
def runBy (next : StackMachine → Except ExpressionError StackMachine) (stop : Word) :
    (left : Nat) → StackMachine → Except ExpressionError StackMachine
  | left, machine =>
    if stop ≤ machine.pos then .ok machine
    else
      match left with
      | 0 => .error .tooManySteps
      | left + 1 => next machine >>= runBy next stop left

/-- The two words that the next operation makes one of, and how. -/
def combined (setting : Setting arch) (machine : StackMachine) :
    Option (BinaryOp × Word × Word) :=
  match Reading.u8 setting.space ⟨machine.pos, setting.code.stop⟩ with
  | .error _ _ => none
  | .ok opcode _ =>
    match Operation.ofByte opcode with
    | .ok (.binary op) => do
      let (top, stack) ← machine.stack.pop
      let (second, _) ← stack.pop
      return (op, second, top)
    | _ => none

variable {setting : Setting arch} {machine : StackMachine}
  {operators : BinaryOp → Word → Word → Except ExpressionError Word}

theorem executeWith_congr {opcode : UInt8} {operation : Operation}
    (h : ∀ op top stack second rest, operation = .binary op →
      machine.stack.pop = some (top, stack) → stack.pop = some (second, rest) →
      operators op second top = op.apply second top) :
    (executeWith operators setting opcode operation).run machine =
      (execute setting opcode operation).run machine := by
  cases operation with
  | binary op =>
    simp only [executeWith, execute, run_pop]
    cases htop : machine.stack.pop with
    | none => rfl
    | some popped =>
      dsimp only
      cases hsecond : popped.2.pop with
      | none => rfl
      | some popped' =>
        dsimp only
        rw [h op popped.1 popped.2 popped'.1 popped'.2 rfl htop hsecond]
  | _ => rfl

theorem nextWith_congr
    (h : ∀ op second top, combined setting machine = some (op, second, top) →
      operators op second top = op.apply second top) :
    nextWith operators setting machine = next setting machine := by
  unfold nextWith next step
  dsimp only
  rw [run_operand, run_operand]
  unfold combined at h
  cases hopcode : Reading.u8 setting.space ⟨machine.pos, setting.code.stop⟩ with
  | error error rest => rfl
  | ok opcode rest =>
    rw [hopcode] at h
    dsimp only at h ⊢
    cases hoperation : Operation.ofByte opcode with
    | error error => rfl
    | ok operation =>
      refine congrArg _ (executeWith_congr fun op top stack second rest hbinary htop hsecond => ?_)
      apply h
      rw [hoperation, hbinary]
      dsimp only
      rw [htop]
      dsimp only [Option.bind_eq_bind, Option.bind_some]
      rw [hsecond]
      rfl

theorem runBy_congr {left : Nat}
    (h : ∀ n < left, ∀ state, Reaches (next setting) (Over setting) machine n state →
      ¬ Over setting state → nextWith operators setting state = next setting state) :
    runBy (nextWith operators setting) setting.code.stop left machine =
      run setting left machine := by
  induction left generalizing machine with
  | zero => rw [runBy, run]
  | succ left ih =>
    rw [runBy]
    by_cases hover : setting.code.stop ≤ machine.pos
    · rw [run_over hover, if_pos hover]
    · rw [run_succ hover, if_neg hover, h 0 (Nat.succ_pos left) machine .start hover]
      cases hstep : next setting machine with
      | error error => rfl
      | ok middle =>
        exact ih fun n hn state hreaches =>
          h (n + 1) (Nat.succ_lt_succ hn) state (hreaches.first hover hstep)

end StackMachine

namespace Expression

variable {arch : Arch}

/-- The value of an expression with other operators on two words. -/
def evaluateWith (operators : BinaryOp → Word → Word → Except ExpressionError Word)
    (code : Expression) (space : AddressSpace) (file : RegisterFile arch) (initial : Word) :
    Except ExpressionError Word := do
  let some stack := ValueStack.empty.push initial | throw .stackOverflow
  let machine ← StackMachine.runBy (StackMachine.nextWith operators ⟨space, file, code⟩) code.stop
    StackMachine.budget ⟨code.start, stack⟩
  match machine.stack.pop with
  | some (value, _) => return value
  | none => throw .emptyStack

variable {code : Expression} {space : AddressSpace} {file : RegisterFile arch} {initial : Word}

/-- A shift of the run cuts its count. -/
def CutsShift (code : Expression) (space : AddressSpace) (file : RegisterFile arch)
    (initial : Word) : Prop :=
  ∃ n < StackMachine.budget, ∃ machine, StackMachine.Reached ⟨space, file, code⟩ initial n machine ∧
    ¬ StackMachine.Over ⟨space, file, code⟩ machine ∧
      ∃ op second top, StackMachine.combined ⟨space, file, code⟩ machine = some (op, second, top) ∧
        BinaryOp.Cuts op second top

theorem evaluateWith_congr {operators : BinaryOp → Word → Word → Except ExpressionError Word}
    (h : ∀ n < StackMachine.budget, ∀ machine,
      StackMachine.Reached ⟨space, file, code⟩ initial n machine →
      ¬ StackMachine.Over ⟨space, file, code⟩ machine → ∀ op second top,
      StackMachine.combined ⟨space, file, code⟩ machine = some (op, second, top) →
      operators op second top = op.apply second top) :
    code.evaluateWith operators space file initial = code.evaluate space file initial := by
  unfold evaluateWith evaluate
  cases hstack : ValueStack.empty.push initial with
  | none => rfl
  | some stack =>
    have hrun : StackMachine.runBy (StackMachine.nextWith operators ⟨space, file, code⟩) code.stop
        StackMachine.budget ⟨code.start, stack⟩ =
        StackMachine.run ⟨space, file, code⟩ StackMachine.budget ⟨code.start, stack⟩ :=
      StackMachine.runBy_congr fun n hn state hreaches hover =>
        StackMachine.nextWith_congr (h n hn state ⟨stack, hstack, hreaches⟩ hover)
    dsimp only
    exact hrun ▸ rfl

theorem evaluateWith_apply :
    code.evaluateWith BinaryOp.apply space file initial = code.evaluate space file initial :=
  evaluateWith_congr fun _ _ _ _ _ _ _ _ _ => rfl

/-- How an evaluation treats the counts of shifts. -/
structure Narrows (code : Expression) (space : AddressSpace) (file : RegisterFile arch)
    (initial : Word) : Prop where
  operator : ∀ op second top, BinaryOp.apply op second top = op.counting BinaryOp.lowHalf second top
  operator_exact_iff : ∀ op second top,
    BinaryOp.apply op second top = op.exact second top ↔ ¬ op.Cuts second top
  exact_wide : ∀ op second top n, BinaryOp.shifted op second top.toNat = some n → 64 ≤ top →
    op.exact second top = .ok (op.spent second)
  value : code.evaluate space file initial =
    code.evaluateWith (BinaryOp.counting BinaryOp.lowHalf) space file initial
  value_exact : ¬ code.CutsShift space file initial →
    code.evaluate space file initial = code.evaluateWith BinaryOp.exact space file initial

/-- Every expression is evaluated as integers say, but with the low half of the count where
it shifts. It is evaluated exactly if no shift of the run cuts its count. -/
theorem evaluate_narrows (code : Expression) (space : AddressSpace) (file : RegisterFile arch)
    (initial : Word) : code.Narrows space file initial where
  operator := BinaryOp.apply_eq_counting
  operator_exact_iff := BinaryOp.apply_eq_exact_iff
  exact_wide op second top n hshifted hwide := BinaryOp.counting_of_wide hshifted hwide
  value := by
    have hoperators : BinaryOp.apply = BinaryOp.counting BinaryOp.lowHalf := by
      funext op second top
      exact BinaryOp.apply_eq_counting op second top
    rw [← evaluateWith_apply, hoperators]
  value_exact hcuts := by
    refine (evaluateWith_congr fun n hn machine hreached hover op second top hcombined => ?_).symm
    refine ((BinaryOp.apply_eq_exact_iff op second top).mpr fun hop => hcuts ?_).symm
    exact ⟨n, hn, machine, hreached, hover, op, second, top, hcombined, hop⟩

/-- A one, a count that has no low half, and a shift to the left. -/
def wideShiftMemory : Snapshot where
  endian := .little
  regions := [⟨0x1000, [0x31, 0x0e, 0, 0, 0, 0, 1, 0, 0, 0, 0x24]⟩]

theorem evaluate_wide_shift :
    BinaryOp.apply .shl 1 0x100000000 = .ok 1 ∧ BinaryOp.exact .shl 1 0x100000000 = .ok 0 ∧
    BinaryOp.apply .shr 1 0x100000000 = .ok 1 ∧ BinaryOp.exact .shr 1 0x100000000 = .ok 0 ∧
    BinaryOp.apply .shra (-2) 0x100000000 = .ok (-2) ∧
    BinaryOp.exact .shra (-2) 0x100000000 = .ok (-1) ∧
    evaluate ⟨0x1000, 11⟩ wideShiftMemory.space (RegisterFile.zero : RegisterFile .x86_64) 0 =
      .ok 1 ∧
    evaluateWith BinaryOp.exact ⟨0x1000, 11⟩ wideShiftMemory.space
      (RegisterFile.zero : RegisterFile .x86_64) 0 = .ok 0 := by
  rw [BinaryOp.exact_eq_capped]
  decide +kernel

end Expression

end Unwinding
