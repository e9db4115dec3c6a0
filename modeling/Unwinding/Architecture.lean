import Unwinding.Memory

/-!
# Architectures

Registers are named by number, which is the contract between whoever wrote
the unwind tables and the unwinder. An architecture says where each number
lives in a register file, and where it departs from the common scheme: the
meaning of the vendor instruction, what a call adds to a return address, and
which registers tables do not describe.
-/

namespace Unwinding

/-- The number of a column in the table of rules. -/
abbrev Register := Nat

def Register.name (r : Register) : String := s!"r{r}"

/-- The three kinds of storage in a register file. -/
inductive RegisterClass where
  | integer
  | float
  | vector
  deriving Repr, DecidableEq

def RegisterClass.name : RegisterClass → String
  | integer => "Integer"
  | float => "Float"
  | vector => "Vector"

/-- A place in a register file. The bounds are those of the file, so a slot
never points outside it. -/
inductive Slot where
  | integer (index : Fin 40)
  | float (index : Fin 32)
  | vector (index : Fin 32)
  /-- The column that names the instruction pointer itself. -/
  | ip
  deriving Repr, DecidableEq

/-- The instruction pointer is read and written as an integer register. -/
def Slot.registerClass : Slot → RegisterClass
  | integer _ | ip => .integer
  | float _ => .float
  | vector _ => .vector

/-- What the instruction with the vendor opcode does. -/
inductive VendorOp where
  | unassigned
  /-- The return address changes between signed and unsigned. -/
  | negateSignState
  /-- The register window was spilled to the save area. -/
  | windowSave
  deriving Repr, DecidableEq

inductive Arch where
  | x86_64
  | aarch64
  | ppc64
  | sparc64
  deriving Repr, DecidableEq

namespace Arch

def name : Arch → String
  | x86_64 => "X86_64"
  | aarch64 => "AArch64"
  | ppc64 => "Ppc64"
  | sparc64 => "Sparc64"

/-- The highest number a rule may name. -/
def highest : Arch → Register
  | x86_64 => 32
  | aarch64 => 95
  | ppc64 => 108
  | sparc64 => 31

/-- The stack pointer. -/
def sp : Arch → Register
  | x86_64 => 7
  | aarch64 => 31
  | ppc64 => 1
  | sparc64 => 14

/-- The frame pointer. -/
def fp : Arch → Register
  | x86_64 => 6
  | aarch64 => 29
  | ppc64 => 31
  | sparc64 => 30

/-- The return address column that compilers choose by default. -/
def returnAddress : Arch → Register
  | x86_64 => 16
  | aarch64 => 30
  | ppc64 => 65
  | sparc64 => 15

def vendorOp : Arch → VendorOp
  | x86_64 | ppc64 => .unassigned
  | aarch64 => .negateSignState
  | sparc64 => .windowSave

/-- The pseudo register whose low bit says that the return address is signed. -/
def signState : Register := 34

/-- The pseudo register holding the mask of spilled register windows. It lies
above every number a rule may name. -/
def windowCookie : Register := 0x1000

/-- Register number `r` as the `r - first`-th of a block of `count` slots. -/
private def block (r first count : Nat) : Option (Fin count) :=
  if h : first ≤ r ∧ r - first < count then some ⟨r - first, h.2⟩ else none

private def x86_64Slot (r : Register) : Option Slot :=
  (block r 0 16).map (.integer <| ·.castLE (by decide)) <|>
  (if r = 16 then some .ip else none) <|>
  (block r 17 16).map (.vector <| ·.castLE (by decide))

private def aarch64Slot (r : Register) : Option Slot :=
  (block r 0 32).map (.integer <| ·.castLE (by decide)) <|>
  (if r = 32 then some .ip else none) <|>
  (if r = signState then some (.integer 32) else none) <|>
  (block r 64 32).map .float

private def ppc64Slot (r : Register) : Option Slot :=
  (block r 0 32).map (.integer <| ·.castLE (by decide)) <|>
  (block r 32 32).map .float <|>
  (if r = 65 then some (.integer 32) else none) <|>
  (if r = 66 then some (.integer 33) else none) <|>
  (block r 77 32).map .vector

private def sparc64Slot (r : Register) : Option Slot :=
  (block r 0 32).map (.integer <| ·.castLE (by decide)) <|>
  (if r = windowCookie then some (.integer 32) else none)

/-- Where register `r` lives, for the numbers that name a register. -/
def slot : Arch → Register → Option Slot
  | x86_64 => x86_64Slot
  | aarch64 => aarch64Slot
  | ppc64 => ppc64Slot
  | sparc64 => sparc64Slot

/-- The number that names a slot, where there is one. -/
def number : Arch → Slot → Register
  | x86_64, .integer i => i
  | x86_64, .vector i => 17 + i
  | x86_64, .ip => 16
  | aarch64, .integer i => if i.val = 32 then signState else i
  | aarch64, .float i => 64 + i
  | aarch64, .ip => 32
  | ppc64, .integer i => if i.val < 32 then i else 33 + i
  | ppc64, .float i => 32 + i
  | ppc64, .vector i => 77 + i
  | sparc64, .integer i => if i.val = 32 then windowCookie else i
  | _, _ => 0

theorem block_eq_some {r first count : Nat} {i : Fin count} (h : block r first count = some i) :
    r = first + i.val := by
  unfold block at h
  split at h
  · rename_i hr
    cases h
    exact (Nat.add_sub_cancel' hr.1).symm
  · cases h

theorem number_slot {arch : Arch} {r : Register} {s : Slot} (h : arch.slot r = some s) :
    arch.number s = r := by
  cases arch <;>
    simp only [slot, x86_64Slot, aarch64Slot, ppc64Slot, sparc64Slot, Option.orElse_eq_orElse,
      Option.orElse_eq_or, Option.or_eq_some_iff, Option.map_eq_some_iff,
      Option.ite_none_right_eq_some, Option.some.injEq] at h
  case x86_64 =>
    rcases h with ⟨i, hi, rfl⟩ | ⟨-, ⟨rfl, rfl⟩ | ⟨-, i, hi, rfl⟩⟩
    · rw [block_eq_some hi]
      simp [number]
    · rfl
    · rw [block_eq_some hi]
      rfl
  case aarch64 =>
    rcases h with ⟨i, hi, rfl⟩ | ⟨-, ⟨rfl, rfl⟩ | ⟨-, ⟨rfl, rfl⟩ | ⟨-, i, hi, rfl⟩⟩⟩
    · rw [block_eq_some hi]
      simp [number, Nat.ne_of_lt i.isLt]
    · rfl
    · rfl
    · rw [block_eq_some hi]
      rfl
  case ppc64 =>
    rcases h with ⟨i, hi, rfl⟩ | ⟨-, ⟨i, hi, rfl⟩ |
      ⟨-, ⟨rfl, rfl⟩ | ⟨-, ⟨rfl, rfl⟩ | ⟨-, i, hi, rfl⟩⟩⟩⟩
    · rw [block_eq_some hi]
      simp [number, i.isLt]
    · rw [block_eq_some hi]
      rfl
    · rfl
    · rfl
    · rw [block_eq_some hi]
      rfl
  case sparc64 =>
    rcases h with ⟨i, hi, rfl⟩ | ⟨-, rfl, rfl⟩
    · rw [block_eq_some hi]
      simp [number, Nat.ne_of_lt i.isLt]
    · rfl

theorem slot_inj {arch : Arch} {r r' : Register} {s : Slot} (h : arch.slot r = some s)
    (h' : arch.slot r' = some s) : r = r' :=
  (number_slot h).symm.trans (number_slot h')

theorem slot_sp (arch : Arch) : ∃ i, arch.slot arch.sp = some (.integer i) := by
  cases arch <;> exact ⟨_, rfl⟩

def registerClass (arch : Arch) (r : Register) : Option RegisterClass :=
  (arch.slot r).map Slot.registerClass

/-- The registers that rules may name, in ascending order. -/
def columns (arch : Arch) : List Register := List.range (arch.highest + 1)

/-- All numbers that name registers to be shown. -/
def numbers (arch : Arch) : List Register := arch.columns ++ [windowCookie]

/-- What a call leaves between the recorded return address and the place
where execution goes on. -/
def callLength : Arch → Word
  | sparc64 => 8
  | _ => 0

/-- The address at which execution goes on after the return. -/
def adjustReturnAddress (arch : Arch) (address : Word) : Word := address + arch.callLength

end Arch

end Unwinding
