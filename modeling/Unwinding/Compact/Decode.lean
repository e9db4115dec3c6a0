import Unwinding.Compact.X64
import Unwinding.Compact.Arm64

/-!
# Decoding compact encodings

Two architectures have compact encodings; on the others every encoding is
refused.
-/

namespace Unwinding

/-- The rules that an encoding stands for on `arch`, for the function that
starts at `start`. -/
def CompactEncoding.decode (encoding : CompactEncoding) (arch : Arch) (space : AddressSpace)
    (start : Word) : Except CompactError CompactRules :=
  match arch with
  | .x86_64 => Compact.X64.decode space encoding start
  | .aarch64 => Compact.Arm64.decode encoding
  | .ppc64 | .sparc64 => .error (.unsupportedArch arch)

end Unwinding
