import Unwinding.Reading

/-!
# Variable-length numbers

A number is a run of bytes with seven bits each, least significant group
first; the top bit of a byte says that another follows. Every byte moves the
decoder, so the bytes left in the span bound the run, and a run that meets
the limit fails exactly as a read of one more byte does.

The shift of a group has no bound here. A counter of 32 bits is the same for
all runs of up to 613566756 bytes; one more would make it overflow.
-/

namespace Unwinding.Reading

/-- The seven bits a byte contributes. -/
def group (byte : UInt8) : Nat := byte.toNat % 128

def isLast (byte : UInt8) : Bool := decide (byte.toNat < 128)

/-- Adds groups of weight `2 ^ shift` on to `value`. The run is refused at the
byte with which its number leaves 64 bits. -/
def unsignedRun (start : Word) : (left shift value : Nat) → Reading MemoryError Word
  | 0, _, _ => do
    let span ← get
    throw (.pastLimit span.pos 1 span.limit)
  | left + 1, shift, value => do
    let byte ← u8
    let value := value + group byte <<< shift
    if UInt64.size ≤ value then throw (.lebOverflow start)
    if isLast byte then return UInt64.ofNat value
    unsignedRun start left (shift + 7) value

/-- An unsigned number in any padded form, as long as it fits a word. -/
def uleb128 : Reading MemoryError Word := do
  let span ← get
  unsignedRun span.pos span.remaining 0 0

/-- Collects the low 64 bits of a run. A group that lies wholly above them
must be all zeros or all ones; below, the last group's top bit is the sign. -/
def signedRun (start : Word) : (left shift : Nat) → (value : Word) → Reading MemoryError Int64
  | 0, _, _ => do
    let span ← get
    throw (.pastLimit span.pos 1 span.limit)
  | left + 1, shift, value => do
    let byte ← u8
    if 64 ≤ shift ∧ group byte ≠ 0 ∧ group byte ≠ 127 then throw (.lebOverflow start)
    let value :=
      if shift < 64 then value ||| UInt64.ofNat (group byte) <<< UInt64.ofNat shift else value
    let shift := shift + 7
    if isLast byte then
      let value :=
        if shift < 64 ∧ 64 ≤ group byte then value ||| (-1) <<< UInt64.ofNat shift else value
      return value.toInt64
    signedRun start left shift value

/-- A signed number. -/
def sleb128 : Reading MemoryError Int64 := do
  let span ← get
  signedRun span.pos span.remaining 0 0

/-- The shortest run for `n`. -/
def encodeUnsigned (n : Nat) : List UInt8 :=
  if n < 128 then [UInt8.ofNat n]
  else UInt8.ofNat (n % 128 + 128) :: encodeUnsigned (n / 128)

/-- The shortest run for `n`: it ends with the first group whose top bit is
the sign of all that is left. -/
def encodeSigned (n : Int) : List UInt8 :=
  if -64 ≤ n ∧ n < 64 then [UInt8.ofNat (n % 128).toNat]
  else UInt8.ofNat ((n % 128).toNat + 128) :: encodeSigned (n / 128)
termination_by n.natAbs
decreasing_by omega

end Unwinding.Reading
