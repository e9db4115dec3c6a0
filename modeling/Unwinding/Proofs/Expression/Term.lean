import Unwinding.Proofs.Reading.Spelling
import Unwinding.Proofs.Expression.Reference

/-!
# Terms, what they are worth and how they are written

A term is a tree over constants, registers and memory. What it is worth is a matter of
integers: an operation takes the numbers of its words, with a sign where the sign
matters, and its result is the word that is the same number modulo `2 ^ 64`.

The code of a term is that of its parts with the operation behind them. Constants and
operands can be written in more than one way, so that a term has many codes; how many
operations they have and how many values they need room for depends on the tree alone.
-/

namespace Unwinding

/-- The number of a word in two's complement. -/
def signed (value : Word) : Int := value.toInt64.toInt

theorem toUInt64_ofInt (n : Int) : (Int64.ofInt n).toUInt64 = UInt64.ofInt n := by
  have hlt : n % 2 ^ 64 < 2 ^ 64 := Int.emod_lt_of_pos n (by decide)
  apply UInt64.toNat_inj.mp
  change (BitVec.ofInt 64 n).toNat = (UInt64.ofNat (n % 2 ^ 64).toNat).toNat
  rw [BitVec.toNat_ofInt, UInt64.toNat_ofNat_of_lt']
  · rfl
  · change (n % 2 ^ 64).toNat < 2 ^ 64
    omega

@[simp] theorem ofInt_toNat (value : Word) : UInt64.ofInt value.toNat = value := by
  have hword : (value.toNat : Int) % 2 ^ 64 = value.toNat :=
    Int.emod_eq_of_lt (Int.natCast_nonneg _) (by exact_mod_cast value.toNat_lt)
  rw [UInt64.ofInt, hword, Int.toNat_natCast, UInt64.ofNat_toNat]

@[simp] theorem ofInt_toInt (n : Int64) : UInt64.ofInt n.toInt = n.toUInt64 := by
  rw [← toUInt64_ofInt, Int64.ofInt_toInt]

@[simp] theorem ofInt_signed (value : Word) : UInt64.ofInt (signed value) = value := by
  rw [signed, ofInt_toInt, UInt64.toUInt64_toInt64]

section Arithmetic

/-- One for what holds and zero for what does not. -/
def flag (holds : Prop) [Decidable holds] : Word := if holds then 1 else 0

def UnaryOp.arithmetic : UnaryOp → Word → Word
  | abs, value => UInt64.ofInt (signed value).natAbs
  | neg, value => UInt64.ofInt (-signed value)
  | complement, value => UInt64.ofInt (-1 - signed value)

/-- Shifts are left out. -/
def BinaryOp.arithmetic (op : BinaryOp) (second top : Word) : Option Word :=
  match op with
  | and => some (second &&& top)
  | or => some (second ||| top)
  | xor => some (second ^^^ top)
  | plus => some (UInt64.ofInt (second.toNat + top.toNat))
  | minus => some (UInt64.ofInt (second.toNat - top.toNat))
  | mul => some (UInt64.ofInt (second.toNat * top.toNat))
  | div => if top = 0 then none else some (UInt64.ofInt ((signed second).tdiv (signed top)))
  | mod => if top = 0 then none else some (UInt64.ofInt (second.toNat % top.toNat))
  | eq => some (flag (signed second = signed top))
  | ge => some (flag (signed second ≥ signed top))
  | gt => some (flag (signed second > signed top))
  | le => some (flag (signed second ≤ signed top))
  | lt => some (flag (signed second < signed top))
  | ne => some (flag (signed second ≠ signed top))
  | shl | shr | shra => none

theorem UnaryOp.apply_eq_arithmetic (op : UnaryOp) (value : Word) :
    op.apply value = op.arithmetic value := by
  cases op with
  | abs =>
    unfold apply arithmetic signed
    by_cases h : value.toInt64 < 0
    · have hneg : value.toInt64.toInt < 0 := Int64.lt_iff_toInt_lt.mp h
      have habs : (value.toInt64.toInt.natAbs : Int) = -value.toInt64.toInt := by omega
      simp [h, habs, UInt64.ofInt_neg]
    · have hpos : ¬ value.toInt64.toInt < 0 := fun hneg => h (Int64.lt_iff_toInt_lt.mpr hneg)
      have habs : (value.toInt64.toInt.natAbs : Int) = value.toInt64.toInt := by omega
      simp [h, habs]
  | neg => simp [apply, arithmetic, UInt64.ofInt_neg]
  | complement =>
    rw [apply, arithmetic, Int.sub_eq_add_neg, UInt64.ofInt_add, UInt64.ofInt_neg (signed value),
      ofInt_signed, UInt64.not_eq_neg_sub, UInt64.sub_eq_add_neg, UInt64.add_comm]
    rfl

theorem truth_eq_flag {holds : Prop} [Decidable holds] {b : Bool} (h : b = true ↔ holds) :
    BinaryOp.truth b = flag holds := by
  unfold BinaryOp.truth flag
  simp only [h]

theorem toUInt64_div (second top : Word) :
    (second.toInt64 / top.toInt64).toUInt64 =
      UInt64.ofInt ((signed second).tdiv (signed top)) := by
  have hdiv := Int64.ofInt_tdiv second.toInt64.minValue_le_toInt second.toInt64.toInt_le
    top.toInt64.minValue_le_toInt top.toInt64.toInt_le
  rw [Int64.ofInt_toInt, Int64.ofInt_toInt] at hdiv
  rw [← hdiv, toUInt64_ofInt]
  rfl

theorem BinaryOp.apply_of_arithmetic {op : BinaryOp} {second top value : Word}
    (h : op.arithmetic second top = some value) : op.apply second top = .ok value := by
  cases op with
  | and | or | xor =>
    cases h
    rfl
  | plus =>
    simp only [arithmetic, UInt64.ofInt_add, ofInt_toNat, Option.some.injEq] at h
    exact congrArg Except.ok h
  | minus =>
    simp only [arithmetic, Int.sub_eq_add_neg, UInt64.ofInt_add, UInt64.ofInt_neg, ofInt_toNat,
      ← UInt64.sub_eq_add_neg, Option.some.injEq] at h
    exact congrArg Except.ok h
  | mul =>
    simp only [arithmetic, UInt64.ofInt_mul, ofInt_toNat, Option.some.injEq] at h
    exact congrArg Except.ok h
  | div =>
    simp only [arithmetic, Option.ite_none_left_eq_some, Option.some.injEq] at h
    rw [← h.2, ← toUInt64_div]
    exact if_neg h.1
  | mod =>
    simp only [arithmetic, Option.ite_none_left_eq_some, Option.some.injEq, ← Int.natCast_emod,
      ← UInt64.toNat_mod, ofInt_toNat] at h
    rw [← h.2]
    exact if_neg h.1
  | eq =>
    cases h
    exact congrArg Except.ok (truth_eq_flag (by simp [signed, Int64.toInt_inj]))
  | ge =>
    cases h
    exact congrArg Except.ok (truth_eq_flag (by simp [signed, Int64.le_iff_toInt_le]))
  | gt =>
    cases h
    exact congrArg Except.ok (truth_eq_flag (by simp [signed, Int64.lt_iff_toInt_lt]))
  | le =>
    cases h
    exact congrArg Except.ok (truth_eq_flag (by simp [signed, Int64.le_iff_toInt_le]))
  | lt =>
    cases h
    exact congrArg Except.ok (truth_eq_flag (by simp [signed, Int64.lt_iff_toInt_lt]))
  | ne =>
    cases h
    exact congrArg Except.ok (truth_eq_flag (by simp [signed, Int64.toInt_inj]))
  | shl | shr | shra => cases h

end Arithmetic

/-- How many bytes a term loads. -/
inductive LoadSize where
  | one
  | two
  | four
  | eight
  deriving Repr, DecidableEq

def LoadSize.count : LoadSize → Nat
  | one => 1
  | two => 2
  | four => 4
  | eight => 8

/-- The number stored in some bytes, if they can be read. -/
def AddressSpace.stored (space : AddressSpace) (address : Word) (count : Nat) : Option Word :=
  match space.read address count with
  | .ok bytes => if bytes.length = count then some (UInt64.ofNat (space.endian.decode bytes)) else none
  | .error _ => none

theorem AddressSpace.number_of_stored {space : AddressSpace} {address value : Word} {count : Nat}
    (h : space.stored address count = some value) :
    ∃ n < 256 ^ count, space.number address count = .ok n ∧ value = UInt64.ofNat n := by
  unfold stored at h
  cases hread : space.read address count with
  | error error =>
    rw [hread] at h
    cases h
  | ok bytes =>
    rw [hread] at h
    simp only [Option.ite_none_right_eq_some, Option.some.injEq] at h
    refine ⟨space.endian.decode bytes, ?_, ?_, h.2.symm⟩
    · rw [← h.1]
      exact Endian.decode_lt _ _
    · rw [number, hread]
      rfl

inductive Term where
  | constant (value : Word)
  /-- A register plus an offset. -/
  | based (r : Register) (offset : Int64)
  | load (size : LoadSize) (address : Term)
  | unary (op : UnaryOp) (term : Term)
  | plusConstant (term : Term) (n : Word)
  | binary (op : BinaryOp) (second top : Term)
  deriving Repr, DecidableEq

namespace Term

variable {arch : Arch}

/-- What the term is worth, if its registers exist, its loads can be read and its
operations on two words have a result. -/
def value (operators : BinaryOp → Word → Word → Option Word) (space : AddressSpace)
    (file : RegisterFile arch) : Term → Option Word
  | constant value => some value
  | based r offset =>
    match file.get r with
    | .ok base => some (UInt64.ofInt (base.toNat + offset.toInt))
    | .error _ => none
  | load size address => do space.stored (← value operators space file address) size.count
  | unary op term => do return op.arithmetic (← value operators space file term)
  | plusConstant term n => do
    return UInt64.ofInt ((← value operators space file term).toNat + n.toNat)
  | binary op second top => do
    operators op (← value operators space file second) (← value operators space file top)

theorem exists_base {operators : BinaryOp → Word → Word → Option Word} {space : AddressSpace}
    {file : RegisterFile arch} {r : Register} {offset : Int64} {value : Word}
    (h : (based r offset).value operators space file = some value) :
    ∃ base, file.get r = .ok base ∧ base + offset.toUInt64 = value := by
  rw [Term.value] at h
  cases hbase : file.get r with
  | error error =>
    rw [hbase] at h
    cases h
  | ok base =>
    simp only [hbase, UInt64.ofInt_add, ofInt_toNat, ofInt_toInt, Option.some.injEq] at h
    exact ⟨base, rfl, h⟩

/-- How many operations the code of the term has. -/
def operations : Term → Nat
  | constant _ | based .. => 1
  | load _ term | unary _ term | plusConstant term _ => term.operations + 1
  | binary _ second top => second.operations + top.operations + 1

/-- How many values the code of the term needs room for. -/
def slots : Term → Nat
  | constant _ | based .. => 1
  | load _ term | unary _ term | plusConstant term _ => term.slots
  | binary _ second top => max second.slots (top.slots + 1)

end Term

section Code

def Constant.opcode : Constant → UInt8
  | pointer => 0x03
  | unsigned8 => 0x08
  | signed8 => 0x09
  | unsigned16 => 0x0a
  | signed16 => 0x0b
  | unsigned32 => 0x0c
  | signed32 => 0x0d
  | unsigned64 => 0x0e
  | signed64 => 0x0f
  | unsignedLeb => 0x10
  | signedLeb => 0x11

def UnaryOp.opcode : UnaryOp → UInt8
  | abs => 0x19
  | neg => 0x1f
  | complement => 0x20

def BinaryOp.opcode : BinaryOp → UInt8
  | and => 0x1a
  | div => 0x1b
  | minus => 0x1c
  | mod => 0x1d
  | mul => 0x1e
  | or => 0x21
  | plus => 0x22
  | shl => 0x24
  | shr => 0x25
  | shra => 0x26
  | xor => 0x27
  | eq => 0x29
  | ge => 0x2a
  | gt => 0x2b
  | le => 0x2c
  | lt => 0x2d
  | ne => 0x2e

/-- A number without a sign, padded or not. -/
def WritesUnsigned (n : Nat) (operand : List UInt8) : Prop :=
  Reading.IsRun operand ∧ Reading.unsignedValue operand = n

/-- A number with a sign, padded or not. -/
def WritesSigned (n : Int) (operand : List UInt8) : Prop :=
  Reading.IsRun operand ∧ Reading.signedValue operand = n

/-- The operand gives the constant in this form. -/
def Constant.Writes (endian : Endian) (form : Constant) (value : Word) (operand : List UInt8) :
    Prop :=
  match form with
  | pointer | unsigned64 | signed64 => operand = endian.encode 8 value.toNat
  | unsigned8 => value.toNat < 2 ^ 8 ∧ operand = endian.encode 1 value.toNat
  | unsigned16 => value.toNat < 2 ^ 16 ∧ operand = endian.encode 2 value.toNat
  | unsigned32 => value.toNat < 2 ^ 32 ∧ operand = endian.encode 4 value.toNat
  | signed8 =>
    (-2 ^ 7 ≤ signed value ∧ signed value < 2 ^ 7) ∧ operand = endian.encode 1 value.toNat
  | signed16 =>
    (-2 ^ 15 ≤ signed value ∧ signed value < 2 ^ 15) ∧ operand = endian.encode 2 value.toNat
  | signed32 =>
    (-2 ^ 31 ≤ signed value ∧ signed value < 2 ^ 31) ∧ operand = endian.encode 4 value.toNat
  | unsignedLeb => WritesUnsigned value.toNat operand
  | signedLeb => WritesSigned (signed value) operand

/-- The codes of a term. -/
inductive Term.Code (endian : Endian) : Term → List UInt8 → Prop
  | literal {value : Word} : value.toNat < 32 →
      Code endian (.constant value) [UInt8.ofNat (0x30 + value.toNat)]
  | constant {form : Constant} {value : Word} {operand : List UInt8} :
      form.Writes endian value operand → Code endian (.constant value) (form.opcode :: operand)
  | based {r : Register} {offset : Int64} {operand : List UInt8} : r < 32 →
      WritesSigned offset.toInt operand →
      Code endian (.based r offset) (UInt8.ofNat (0x70 + r) :: operand)
  | basedOperand {r : Register} {offset : Int64} {number operand : List UInt8} :
      WritesUnsigned r number → WritesSigned offset.toInt operand →
      Code endian (.based r offset) (0x92 :: (number ++ operand))
  | deref {address : Term} {code : List UInt8} : Code endian address code →
      Code endian (.load .eight address) (code ++ [0x06])
  | derefSize {size : LoadSize} {address : Term} {code : List UInt8} : Code endian address code →
      Code endian (.load size address) (code ++ [0x94, UInt8.ofNat size.count])
  | unary {op : UnaryOp} {term : Term} {code : List UInt8} : Code endian term code →
      Code endian (.unary op term) (code ++ [op.opcode])
  | plusConstant {term : Term} {n : Word} {code operand : List UInt8} : Code endian term code →
      WritesUnsigned n.toNat operand →
      Code endian (.plusConstant term n) (code ++ 0x23 :: operand)
  | binary {op : BinaryOp} {second top : Term} {code code' : List UInt8} :
      Code endian second code → Code endian top code' →
      Code endian (.binary op second top) (code ++ (code' ++ [op.opcode]))

end Code

end Unwinding
