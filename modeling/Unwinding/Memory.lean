import Unwinding.Text.Hex

/-!
# Memory of the program being unwound

Nothing in this library holds a pointer. Every read goes through an
`AddressSpace`, which answers with bytes or says which of them it could not
deliver, so that a damaged stack shows as an error value. Numbers are built
from bytes by one fold, least significant byte first; the big-endian reading
is that fold over the reversed bytes.
-/

namespace Unwinding

/-- A machine word: an address, or the contents of a general register. -/
abbrev Word := UInt64

/-- The highest address, which nothing lies beyond. -/
def lastAddress : Word := 0xffffffffffffffff

namespace Bytes

/-- The number written by the bytes, least significant first. -/
def toNat : List UInt8 → Nat
  | [] => 0
  | b :: bs => b.toNat + 256 * toNat bs

/-- The `count` low bytes of `n`, least significant first. -/
def ofNat : (count : Nat) → (n : Nat) → List UInt8
  | 0, _ => []
  | count + 1, n => UInt8.ofNat n :: ofNat count (n / 256)

@[simp] theorem ofNat_length (count n : Nat) : (ofNat count n).length = count := by
  induction count generalizing n with
  | zero => rfl
  | succ count ih => simp [ofNat, ih]

/-- The bytes with those from position `start` on replaced by `new`. -/
def overwrite (bytes new : List UInt8) (start : Nat) : List UInt8 :=
  bytes.take start ++ new ++ bytes.drop (start + new.length)

end Bytes

/-- Which end of a number comes first in memory. -/
inductive Endian where
  | little
  | big
  deriving Repr, DecidableEq

namespace Endian

/-- The number that `bytes`, in memory order, stand for. -/
def decode : Endian → List UInt8 → Nat
  | little, bytes => Bytes.toNat bytes
  | big, bytes => Bytes.toNat bytes.reverse

/-- The `count` bytes that stand for `n`, in memory order. -/
def encode : Endian → (count : Nat) → (n : Nat) → List UInt8
  | little, count, n => Bytes.ofNat count n
  | big, count, n => (Bytes.ofNat count n).reverse

@[simp] theorem encode_length (e : Endian) (count n : Nat) :
    (e.encode count n).length = count := by
  cases e <;> simp [encode]

end Endian

/-- Why a read delivered nothing. -/
inductive MemoryError where
  /-- Some of the bytes are not mapped. -/
  | unmapped (address : Word) (count : Nat)
  /-- The read would leave the window it was confined to. -/
  | pastLimit (address : Word) (count : Nat) (limit : Word)
  /-- A variable-length number at `address` needs more than 64 bits. -/
  | lebOverflow (address : Word)
  /-- The encoding byte has no value format, or nothing it is relative to. -/
  | unsupportedEncoding (encoding : UInt8)
  /-- The encoding is relative to a base that is not known here. -/
  | missingBase (encoding : UInt8)
  deriving Repr, DecidableEq

def MemoryError.name : MemoryError → String
  | unmapped .. => "Unmapped"
  | pastLimit .. => "PastLimit"
  | lebOverflow .. => "LebOverflow"
  | unsupportedEncoding .. => "UnsupportedEncoding"
  | missingBase .. => "MissingBase"

def MemoryError.message : MemoryError → String
  | unmapped address count => s!"{count} bytes at {Hex.word address} are not readable"
  | pastLimit address count limit =>
    s!"read of {count} bytes at {Hex.word address} runs past the limit {Hex.word limit}"
  | lebOverflow address => s!"LEB128 value at {Hex.word address} does not fit into 64 bits"
  | unsupportedEncoding encoding => s!"unsupported pointer encoding {Hex.byte encoding}"
  | missingBase encoding =>
    s!"pointer encoding {Hex.byte encoding} needs a base address that is not known"

/-- A read-only view of memory. A read of `count` bytes delivers all of them
or fails as a whole. -/
structure AddressSpace where
  endian : Endian
  read : (address : Word) → (count : Nat) → Except MemoryError (List UInt8)

namespace AddressSpace

/-- The number stored in `count` bytes. -/
def number (space : AddressSpace) (address : Word) (count : Nat) : Except MemoryError Nat :=
  (space.read address count).map space.endian.decode

def get8 (space : AddressSpace) (address : Word) : Except MemoryError UInt8 :=
  (space.number address 1).map UInt8.ofNat

def get16 (space : AddressSpace) (address : Word) : Except MemoryError UInt16 :=
  (space.number address 2).map UInt16.ofNat

def get32 (space : AddressSpace) (address : Word) : Except MemoryError UInt32 :=
  (space.number address 4).map UInt32.ofNat

def get64 (space : AddressSpace) (address : Word) : Except MemoryError UInt64 :=
  (space.number address 8).map UInt64.ofNat

def get128 (space : AddressSpace) (address : Word) : Except MemoryError (BitVec 128) :=
  (space.number address 16).map (BitVec.ofNat 128)

/-- A pointer is one word. -/
def pointer (space : AddressSpace) (address : Word) : Except MemoryError Word :=
  space.get64 address

end AddressSpace

end Unwinding
