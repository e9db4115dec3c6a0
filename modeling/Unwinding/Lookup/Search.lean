/-!
# Binary search by key

Tables are searched for the last entry whose key is at or before a target.
Keys come from memory, so asking for one can fail, and the order in which
they are asked for is part of the result on a damaged table. Two searches
are in use. One narrows a base and a length, never giving up the first entry;
the other narrows both ends and can answer that every key lies beyond.
-/

namespace Unwinding.Search

variable {ε κ : Type} [LE κ] [DecidableLE κ]

/-- Narrows the `length` entries from `base` on to one. If any key of a sorted
range is at or before the target, the last such entry is left. -/
def narrow (key : Nat → Except ε κ) (target : κ) (base length : Nat) : Except ε Nat :=
  if 1 < length then do
    let half := length / 2
    let middle := base + half
    if (← key middle) ≤ target then narrow key target middle (length - half)
    else narrow key target base half
  else .ok base
termination_by length

/-- How many of the entries before `high` have a key at or before the target,
given that those before `low` do. -/
def countBetween (key : Nat → Except ε κ) (target : κ) (low high : Nat) : Except ε Nat :=
  if low < high then do
    let middle := low + (high - low) / 2
    if (← key middle) ≤ target then countBetween key target (middle + 1) high
    else countBetween key target low middle
  else .ok low
termination_by high - low

/-- The last of `count` entries whose key is at or before the target. -/
def lastAtOrBefore (key : Nat → Except ε κ) (target : κ) (count : Nat) :
    Except ε (Option Nat) := do
  match ← countBetween key target 0 count with
  | 0 => return none
  | index + 1 => return some index

end Unwinding.Search
