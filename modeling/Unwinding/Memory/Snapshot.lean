import Unwinding.Memory

/-!
# Captured memory

A snapshot is a list of regions: a stack copy, a section dump, a core file.
The first region that holds the whole read serves it; two regions never
serve one read together, even when they touch. A region whose end is not an
address maps nothing.
-/

namespace Unwinding

/-- Bytes captured from `base` on. -/
structure Region where
  base : Word
  bytes : List UInt8
  deriving Repr, DecidableEq

namespace Region

/-- The region holds all of `[address, address + count)`. -/
def Holds (region : Region) (address : Word) (count : Nat) : Prop :=
  region.base ≤ address ∧
    address.toNat + count ≤ region.base.toNat + region.bytes.length ∧
    region.base.toNat + region.bytes.length < UInt64.size

instance (region : Region) (address : Word) (count : Nat) :
    Decidable (region.Holds address count) :=
  inferInstanceAs (Decidable (_ ∧ _ ∧ _))

/-- The bytes at `address`, for a read that the region holds. -/
def slice (region : Region) (address : Word) (count : Nat) : List UInt8 :=
  (region.bytes.drop (address - region.base).toNat).take count

end Region

/-- Memory captured ahead of time. -/
structure Snapshot where
  endian : Endian
  regions : List Region
  deriving Repr, DecidableEq

namespace Snapshot

/-- The region that serves a read. -/
def server (snapshot : Snapshot) (address : Word) (count : Nat) : Option Region :=
  snapshot.regions.find? fun region => decide (region.Holds address count)

def read (snapshot : Snapshot) (address : Word) (count : Nat) :
    Except MemoryError (List UInt8) :=
  match snapshot.server address count with
  | some region => .ok (region.slice address count)
  | none => .error (.unmapped address count)

/-- The snapshot as an address space; outside its regions nothing is mapped. -/
def space (snapshot : Snapshot) : AddressSpace := ⟨snapshot.endian, snapshot.read⟩

/-- The snapshot with one more region, which serves what no earlier one does. -/
def add (snapshot : Snapshot) (region : Region) : Snapshot :=
  { snapshot with regions := snapshot.regions ++ [region] }

end Snapshot

end Unwinding
