import Unwinding.Compact.Encoding
import Unwinding.Compact.Permutation

/-!
# Compact encodings on x86_64

A function either keeps a frame pointer, and then saves up to five registers
at places counted from it, or it has a frame of constant size, and then saves
up to six registers directly below its return address. The size of such a
frame is in the encoding or, if it is too large, in the instruction of the
function that reserves it.
-/

namespace Unwinding.Compact.X64

/-- The registers a function may save, numbered from one in the encoding. -/
def saved : List Register := [3, 12, 13, 14, 15, 6]

/-- An offset in words. -/
def words (n : Int) : Int64 := Int64.ofInt (8 * n)

/-- The save at place `i` of a frame with a frame pointer. Place 0 is lowest;
a place without a register holds nothing that is described. -/
def framePlace (encoding : CompactEncoding) (i : Nat) :
    Except CompactError (Option (Register × Rule)) :=
  match encoding.field (3 * i) 3 with
  | 0 => .ok none
  | n + 1 =>
    match saved[n]? with
    | some r => .ok (some (r, .inCfa (words (i - 2 - encoding.field 16 8))))
    | none => .error (.badMode encoding)

def frame (encoding : CompactEncoding) : Except CompactError Row := do
  let places ← (List.range 5).mapM (framePlace encoding)
  let start := { Row.empty 16 with cfa := .registerOffset 6 (words 2) }
  let record : List (Register × Rule) := [(6, .inCfa (words (-2))), (16, .inCfa (words (-1)))]
  (start.setRules (record ++ places.filterMap id)).mapError .cfi

/-- The saves of a frame of constant size: the last register pushed is the
furthest from the return address. -/
def pushes (encoding : CompactEncoding) : Except CompactError (List (Register × Rule)) :=
  let count := encoding.field 10 3
  if 6 < count then .error (.badMode encoding)
  else
    let order := (Permutation.decode count (encoding.field 0 10)).take count
    .ok (order.mapIdx fun i n => (saved[n]?.getD 3, .inCfa (words (i - 1 - count))))

def constantSize (encoding : CompactEncoding) (size : Int64) : Except CompactError Row := do
  let start := { Row.empty 16 with cfa := .registerOffset 7 size }
  (start.setRules ((16, .inCfa (words (-1))) :: (← pushes encoding))).mapError .cfi

/-- The frame size that the function reserves, which `field` locates in its
code, and the pushes before that. -/
def reservedSize (space : AddressSpace) (encoding : CompactEncoding) (start : Word) :
    Except CompactError Int64 := do
  let reserved ← CompactError.load32 space (start + UInt64.ofNat (encoding.field 16 8))
  return Int64.ofInt reserved.toNat + words (encoding.field 13 3)

def decode (space : AddressSpace) (encoding : CompactEncoding) (start : Word) :
    Except CompactError CompactRules := do
  match encoding.mode with
  | 0 => return .none
  | 1 => return .row (← frame encoding)
  | 2 => return .row (← constantSize encoding (words (encoding.field 16 8)))
  | 3 => return .row (← constantSize encoding (← reservedSize space encoding start))
  | 4 => return .deferred encoding.entryOffset
  | _ => throw (.badMode encoding)

end Unwinding.Compact.X64
