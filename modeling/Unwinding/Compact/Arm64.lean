import Unwinding.Compact.Encoding

/-!
# Compact encodings on arm64

Registers are saved in pairs, each pair directly below the one before it, in
an order that is fixed. A function either keeps a frame pointer, and then the
pairs follow its frame record, or it is a leaf with a frame of constant size
whose return address is still in its register.
-/

namespace Unwinding.Compact.Arm64

/-- The position of the flag of each pair, in the order of the saves. -/
def pairs : List (Nat × Register × Register) :=
  [(0, 19, 20), (1, 21, 22), (2, 23, 24), (3, 25, 26), (4, 27, 28),
    (8, 72, 73), (9, 74, 75), (10, 76, 77), (11, 78, 79)]

/-- The saves of the flagged pairs, from `words` words off the frame address
downward. -/
def saves (encoding : CompactEncoding) :
    List (Nat × Register × Register) → (words : Int) → List (Register × Rule)
  | [], _ => []
  | (flag, first, second) :: rest, words =>
    if encoding.field flag 1 = 0 then saves encoding rest words
    else
      (first, .inCfa (Int64.ofInt (8 * words))) ::
        (second, .inCfa (Int64.ofInt (8 * (words - 1)))) :: saves encoding rest (words - 2)

def leaf (encoding : CompactEncoding) : Except CompactError Row := do
  let size := Int64.ofInt (16 * encoding.field 12 12)
  let start := { Row.empty 30 with cfa := .registerOffset 31 size }
  (start.setRules (saves encoding pairs (-1))).mapError .cfi

def frame (encoding : CompactEncoding) : Except CompactError Row := do
  let start := { Row.empty 30 with cfa := .registerOffset 29 16 }
  let record : List (Register × Rule) := [(29, .inCfa (-16)), (30, .inCfa (-8))]
  (start.setRules (record ++ saves encoding pairs (-3))).mapError .cfi

def decode (encoding : CompactEncoding) : Except CompactError CompactRules := do
  match encoding.mode with
  | 0 => return .none
  | 2 => return .row (← leaf encoding)
  | 3 => return .deferred encoding.entryOffset
  | 4 => return .row (← frame encoding)
  | _ => throw (.badMode encoding)

end Unwinding.Compact.Arm64
