import Unwinding.Pointer
import Unwinding.Architecture
import Unwinding.Text.Quoted

/-!
# Failures of call frame information

One type names every way in which unwind tables can be unusable: entries that
do not decode, instructions without meaning, rows that cannot be built, and
lookup tables that cannot be searched.
-/

namespace Unwinding

inductive CfiError where
  | memory (error : MemoryError)
  | unsupportedVersion (address : Word) (version : UInt8)
  | notCommon (address : Word) (id : UInt32)
  | notFrame (address : Word)
  | terminator (address : Word)
  /-- The declared augmentation data does not fit its entry. -/
  | augmentationOverrun (address : Word) (count : Word)
  | unknownAugmentation (address : Word) (character : UInt8)
  /-- No column has this number. -/
  | badRegister (number : Nat)
  | unknownOpcode (opcode : UInt8)
  /-- Rows were saved more often than `depth` times. -/
  | rememberOverflow (depth : Nat)
  | restoreUnderflow
  /-- An offset was given for a frame address that is not a register plus offset. -/
  | cfaNotRegister
  | unsupportedHeaderVersion (version : UInt8)
  | unsearchableTable (encoding : Encoding)
  deriving Repr, DecidableEq

/-- The name of an error. That of another layer is named after the layer, too. -/
def CfiError.name : CfiError → String
  | memory error => "Memory." ++ error.name
  | unsupportedVersion .. => "UnsupportedVersion"
  | notCommon .. => "NotACie"
  | notFrame .. => "NotAnFde"
  | terminator .. => "Terminator"
  | augmentationOverrun .. => "AugmentationOverrun"
  | unknownAugmentation .. => "UnknownAugmentation"
  | badRegister .. => "BadRegister"
  | unknownOpcode .. => "UnknownOpcode"
  | rememberOverflow .. => "RememberOverflow"
  | restoreUnderflow => "RestoreUnderflow"
  | cfaNotRegister => "CfaNotRegister"
  | unsupportedHeaderVersion .. => "UnsupportedHdrVersion"
  | unsearchableTable .. => "UnsearchableTable"

def CfiError.message : CfiError → String
  | memory error => error.message
  | unsupportedVersion address version =>
    s!"CIE at {Hex.word address} has unsupported version {version}"
  | notCommon address id =>
    s!"entry at {Hex.word address} is not a CIE (id {Hex.word id.toUInt64})"
  | notFrame address => s!"entry at {Hex.word address} is a CIE, expected an FDE"
  | terminator address => s!"entry at {Hex.word address} is the section terminator"
  | augmentationOverrun address count =>
    s!"augmentation data of {count} bytes overruns the entry at {Hex.word address}"
  | unknownAugmentation address character =>
    s!"unknown augmentation {Quoted.character character} in CIE at {Hex.word address}"
  | badRegister number => s!"register {number} is outside the register catalog"
  | unknownOpcode opcode => s!"unknown CFA opcode {Hex.byte opcode}"
  | rememberOverflow depth => s!"remember_state nested deeper than {depth}"
  | restoreUnderflow => "restore_state without a matching remember_state"
  | cfaNotRegister => "CFA offset change while the CFA is not register based"
  | unsupportedHeaderVersion version => s!"eh_frame_hdr version {version} is not supported"
  | unsearchableTable encoding =>
    s!"eh_frame_hdr table encoding {encoding.describe} can't be binary searched"

/-- Decoders of call frame information fail as their reads do. -/
instance : MonadLift (Reading MemoryError) (Reading CfiError) := ⟨Reading.mapError .memory⟩

/-- Numbers of columns are stored in 16 bits. -/
def Register.ofWord (number : Word) : Except CfiError Register :=
  if number.toNat < UInt16.size then .ok number.toNat else .error (.badRegister number.toNat)

end Unwinding
