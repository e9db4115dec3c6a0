import Unwinding.Pointer
import Unwinding.Proofs.Reading.Leb128

/-!
# Pointers that are stored

A format can hold some of the words, and writes each of them in its own way. What a
stored word stands for is found by adding the base that the encoding asks for, and by
one more load if the encoding is indirect.
-/

namespace Unwinding

namespace Format

/-- The bytes for a word that the format can hold. -/
def write (endian : Endian) (format : Format) (value : Word) : List UInt8 :=
  match format with
  | pointer | udata8 | sdata8 => endian.encode 8 value.toNat
  | udata2 | sdata2 => endian.encode 2 value.toNat
  | udata4 | sdata4 => endian.encode 4 value.toNat
  | uleb128 => Reading.encodeUnsigned value.toNat
  | sleb128 => Reading.encodeSigned value.toInt64.toInt

/-- The format has an own form for the word. -/
def Holds (format : Format) (value : Word) : Prop :=
  match format with
  | udata2 => value.toNat < 2 ^ 16
  | udata4 => value.toNat < 2 ^ 32
  | sdata2 => -2 ^ 15 ≤ value.toInt64.toInt ∧ value.toInt64.toInt < 2 ^ 15
  | sdata4 => -2 ^ 31 ≤ value.toInt64.toInt ∧ value.toInt64.toInt < 2 ^ 31
  | pointer | uleb128 | udata8 | sleb128 | sdata8 => True

instance (format : Format) (value : Word) : Decidable (format.Holds value) := by
  cases format <;> unfold Holds <;> infer_instance

end Format

namespace Encoding

/-- The bytes for a word in the format of the encoding. -/
def write (endian : Endian) (encoding : Encoding) (value : Word) : List UInt8 :=
  match encoding.format with
  | some format => format.write endian value
  | none => []

/-- The format of the encoding is a known one, and can hold the word. -/
def Holds (encoding : Encoding) (value : Word) : Prop :=
  ∃ format, encoding.format = some format ∧ format.Holds value

/-- A field at `field` with the word `stored` leads to `target`. -/
def Resolves (encoding : Encoding) (space : AddressSpace) (bases : Bases)
    (field stored target : Word) : Prop :=
  ∃ base, encoding.base bases field = .ok base ∧
    if encoding.isIndirect then space.pointer (stored + base) = .ok target
    else stored + base = target

end Encoding

namespace Encoding

variable {encoding : Encoding} {space : AddressSpace} {bases : Bases} {field value : Word}

theorem format_valueOnly : encoding.valueOnly.format = encoding.format := by
  have hbits : encoding.valueOnly.formatBits = encoding.formatBits := by
    change encoding.byte &&& 0x0f &&& 0x0f = encoding.byte &&& 0x0f
    rw [UInt8.and_assoc]
    rfl
  unfold format
  rw [hbits]

theorem write_valueOnly (endian : Endian) (value : Word) :
    encoding.valueOnly.write endian value = encoding.write endian value := by
  unfold write
  rw [format_valueOnly]

theorem Holds.valueOnly (h : encoding.Holds value) : encoding.valueOnly.Holds value := by
  unfold Holds
  rw [format_valueOnly]
  exact h

theorem resolves_absolute : absolute.Resolves space bases field value value := by
  refine ⟨0, rfl, ?_⟩
  rw [if_neg (by decide), UInt64.add_zero]

theorem resolves_valueOnly : encoding.valueOnly.Resolves space bases field value value := by
  have happlication : encoding.valueOnly.application = some .absolute := by
    have hbits : encoding.valueOnly.applicationBits = 0 := by
      change encoding.byte &&& 0x0f &&& 0x70 = 0
      rw [UInt8.and_assoc]
      exact UInt8.and_zero
    unfold application
    rw [hbits]
    rfl
  have hindirect : ¬ encoding.valueOnly.isIndirect = true := by
    have hbits : encoding.byte &&& 0x0f &&& 0x80 = 0 := by
      rw [UInt8.and_assoc]
      exact UInt8.and_zero
    change ¬ (encoding.byte &&& 0x0f &&& 0x80 != 0) = true
    rw [hbits]
    decide
  refine ⟨0, ?_, ?_⟩
  · unfold base
    rw [happlication]
  · rw [if_neg hindirect, UInt64.add_zero]

end Encoding

end Unwinding
