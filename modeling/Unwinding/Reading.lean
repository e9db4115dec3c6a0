import Unwinding.Memory

/-!
# Reading forward through a span of memory

A `Span` is the part of memory that a decoder may still consume. A `Reading`
is a decoder over the span: it moves the position forward, and when it fails
the position stays where the failure found it. A read first takes its bytes
from the span and then fetches them, so bytes that cannot be fetched count as
consumed while bytes beyond the limit do not.
-/

namespace Unwinding

/-- The addresses from `pos` up to, and not including, `limit`. -/
structure Span where
  pos : Word
  limit : Word
  deriving Repr, DecidableEq

namespace Span

/-- A span without a known end; only the address space bounds its reads. -/
def unbounded (pos : Word) : Span := ⟨pos, lastAddress⟩

def isEmpty (span : Span) : Bool := decide (span.limit ≤ span.pos)

/-- How many bytes are left to consume. -/
def remaining (span : Span) : Nat := span.limit.toNat - span.pos.toNat

theorem isEmpty_iff (span : Span) : span.isEmpty = true ↔ span.remaining = 0 := by
  simp only [isEmpty, remaining, decide_eq_true_eq, UInt64.le_iff_toNat_le]
  omega

end Span

/-- A decoder over a span of an address space, failing with an `ε`. -/
abbrev Reading (ε : Type) := ReaderT AddressSpace (EStateM ε Span)

namespace Reading

variable {ε ε' α : Type}

/-- The same decoder with its failures renamed. -/
def mapError (f : ε → ε') (read : Reading ε α) : Reading ε' α :=
  fun space => EStateM.adaptExcept f (read space)

/-- Decodes `span` and keeps only the result. -/
def result (read : Reading ε α) (space : AddressSpace) (span : Span) : Except ε α :=
  match read space span with
  | .ok value _ => .ok value
  | .error error _ => .error error

/-- A direct access to the address space, outside the span. -/
def fetch (f : AddressSpace → Except ε α) : Reading ε α := fun space span =>
  match f space with
  | .ok value => .ok value span
  | .error error => .error error span

/-- Takes the next `count` bytes of the span, answering where they start. -/
def take (count : Nat) : Reading MemoryError Word := fun _ span =>
  if span.pos.toNat + count ≤ span.limit.toNat then
    .ok span.pos { span with pos := span.pos + UInt64.ofNat count }
  else .error (.pastLimit span.pos count span.limit) span

def skip (count : Nat) : Reading MemoryError Unit := do
  let _ ← take count

def u8 : Reading MemoryError UInt8 := do
  let address ← take 1
  fetch fun space => space.get8 address

def u16 : Reading MemoryError UInt16 := do
  let address ← take 2
  fetch fun space => space.get16 address

def u32 : Reading MemoryError UInt32 := do
  let address ← take 4
  fetch fun space => space.get32 address

def u64 : Reading MemoryError UInt64 := do
  let address ← take 8
  fetch fun space => space.get64 address

def i8 : Reading MemoryError Int8 := return (← u8).toInt8

def i16 : Reading MemoryError Int16 := return (← u16).toInt16

def i32 : Reading MemoryError Int32 := return (← u32).toInt32

def i64 : Reading MemoryError Int64 := return (← u64).toInt64

def pointer : Reading MemoryError Word := do
  let address ← take 8
  fetch fun space => space.pointer address

/-- Where the decoder stands. -/
def pos : Reading ε Word := return (← get).pos

/-- Moves the decoder, leaving the limit alone. -/
def seek (address : Word) : Reading ε Unit := modify ({ · with pos := address })

theorem take_ok {count : Nat} {space : AddressSpace} {span : Span}
    (h : span.pos.toNat + count ≤ span.limit.toNat) :
    take count space span = .ok span.pos { span with pos := span.pos + UInt64.ofNat count } :=
  if_pos h

theorem take_error {count : Nat} {space : AddressSpace} {span : Span}
    (h : span.limit.toNat < span.pos.toNat + count) :
    take count space span = .error (.pastLimit span.pos count span.limit) span :=
  if_neg (Nat.not_le.2 h)

end Reading

end Unwinding
