import Unwinding.CallFrame.Row

/-!
# Compact encodings

A compact encoding packs the unwind rules of a whole function into 32 bits.
The top byte is common to all architectures: whether the function starts
here, whether it has language data, the number of its personality, and the
mode that gives the other bits their meaning.
-/

namespace Unwinding

structure CompactEncoding where
  bits : UInt32
  deriving Repr, DecidableEq

namespace CompactEncoding

/-- The `width` bits from position `low` on. -/
def field (encoding : CompactEncoding) (low width : Nat) : Nat :=
  (encoding.bits.toNat >>> low) % (1 <<< width)

def isNotStart (encoding : CompactEncoding) : Bool := encoding.field 31 1 == 1

def hasLsda (encoding : CompactEncoding) : Bool := encoding.field 30 1 == 1

/-- The personality's number in its table, counted from one; zero for none. -/
def personality (encoding : CompactEncoding) : Nat := encoding.field 28 2

def mode (encoding : CompactEncoding) : Nat := encoding.field 24 4

/-- Where the frame entry is in its section, for the modes that defer to one. -/
def entryOffset (encoding : CompactEncoding) : Nat := encoding.field 0 24

def describe (encoding : CompactEncoding) : String :=
  "CompactEncoding(" ++ Hex.packed encoding.bits ++ ")"

end CompactEncoding

/-- Why a compact encoding gives no rules. -/
inductive CompactError where
  | memory (error : MemoryError)
  | cfi (error : CfiError)
  | unsupportedArch (arch : Arch)
  | badMode (encoding : CompactEncoding)
  | unsupportedVersion (version : UInt32)
  | badPageKind (kind : UInt32)
  | badEncodingIndex (index : Nat)
  | badPersonalityIndex (index : Nat)
  /-- The function has language data, but the index has no entry for it. -/
  | missingLsda (function : Word)
  deriving Repr, DecidableEq

def CompactError.name : CompactError → String
  | memory error => "Memory." ++ error.name
  | cfi error => "Cfi." ++ error.name
  | unsupportedArch .. => "UnsupportedArch"
  | badMode .. => "BadMode"
  | unsupportedVersion .. => "UnsupportedVersion"
  | badPageKind .. => "BadPageKind"
  | badEncodingIndex .. => "BadEncodingIndex"
  | badPersonalityIndex .. => "BadPersonalityIndex"
  | missingLsda .. => "MissingLsda"

def CompactError.message : CompactError → String
  | memory error => error.message
  | cfi error => error.message
  | unsupportedArch arch => s!"compact unwind is not supported on {arch.name}"
  | badMode encoding => s!"unknown compact unwind mode in {encoding.describe}"
  | unsupportedVersion version => s!"__unwind_info version {version} is not supported"
  | badPageKind kind => s!"unknown second level page kind {kind}"
  | badEncodingIndex index => s!"encoding index {index} is out of range"
  | badPersonalityIndex index => s!"personality index {index} is out of range"
  | missingLsda function =>
    s!"function at {Hex.word function} has an LSDA flag but no LSDA entry"

/-- What a compact encoding says about its function. -/
inductive CompactRules where
  /-- The function cannot be stepped through. -/
  | none
  | row (row : Row)
  /-- The rules are those of the frame entry at this offset. -/
  | deferred (offset : Nat)
  deriving Repr, DecidableEq

/-- Loads 32 bits, as decoders of compact encodings do outside a span. -/
def CompactError.load32 (space : AddressSpace) (address : Word) : Except CompactError UInt32 :=
  (space.get32 address).mapError .memory

instance : MonadLift (Reading MemoryError) (Reading CompactError) := ⟨Reading.mapError .memory⟩

end Unwinding
