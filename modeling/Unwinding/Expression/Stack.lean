import Unwinding.Memory

/-!
# The stack of location expressions

The stack is an array with room for a fixed number of values and a count of
those in use. A value that is taken off stays in its slot until another one is
put there, so the slots from the count on hold what was there before, and only
the count tells that they are free.
-/

namespace Unwinding

namespace ValueStack

/-- How many values the stack has room for. -/
def capacity : Nat := 100

end ValueStack

/-- The first `size` of the slots are in use, the last of them for the top. -/
structure ValueStack where
  slots : Vector Word ValueStack.capacity
  size : Nat
  size_le : size ≤ ValueStack.capacity
  deriving Repr, DecidableEq

namespace ValueStack

def empty : ValueStack := ⟨Vector.replicate capacity 0, 0, Nat.zero_le capacity⟩

/-- The stack with one more value, if there is room. -/
def push (stack : ValueStack) (value : Word) : Option ValueStack :=
  if h : stack.size < capacity then
    some ⟨stack.slots.set stack.size value h, stack.size + 1, h⟩
  else none

/-- The value on top, and the stack without it. -/
def pop (stack : ValueStack) : Option (Word × ValueStack) :=
  match stack with
  | ⟨_, 0, _⟩ => none
  | ⟨slots, size + 1, h⟩ => some (slots[size], ⟨slots, size, Nat.le_of_succ_le h⟩)

/-- The value `depth` places below the top. -/
def peek (stack : ValueStack) (depth : Nat) : Option Word :=
  if depth < stack.size then stack.slots[stack.size - 1 - depth]? else none

/-- The values in use, with the top first. -/
def values (stack : ValueStack) : List Word := (stack.slots.toList.take stack.size).reverse

variable {stack stack' : ValueStack} {value : Word}

@[simp] theorem length_values : stack.values.length = stack.size := by
  simp [values, Nat.min_eq_left stack.size_le]

@[simp] theorem values_empty : empty.values = [] := by
  simp [values, empty]

theorem push_eq_none : stack.push value = none ↔ stack.size = capacity := by
  unfold push
  split
  · rename_i h
    exact ⟨nofun, fun hfull => absurd hfull (Nat.ne_of_lt h)⟩
  · rename_i h
    exact ⟨fun _ => Nat.le_antisymm stack.size_le (Nat.le_of_not_lt h), fun _ => rfl⟩

theorem values_of_push (h : stack.push value = some stack') :
    stack'.values = value :: stack.values := by
  unfold push at h
  split at h
  · rename_i hroom
    cases h
    have hlength : stack.size < stack.slots.toList.length := by simpa using hroom
    have htake : (stack.slots.set stack.size value hroom).toList.take (stack.size + 1) =
        stack.slots.toList.take stack.size ++ [value] := by
      rw [Vector.toList_set, List.take_set, List.take_add_one, List.getElem?_eq_getElem hlength]
      simp [Nat.le_of_lt hroom]
    change ((stack.slots.set stack.size value hroom).toList.take (stack.size + 1)).reverse = _
    rw [htake, List.reverse_append]
    rfl
  · cases h

theorem pop_eq_none : stack.pop = none ↔ stack.values = [] := by
  rw [← List.length_eq_zero_iff, length_values]
  obtain ⟨slots, size, h⟩ := stack
  cases size with
  | zero => exact ⟨fun _ => rfl, fun _ => rfl⟩
  | succ size => exact ⟨nofun, nofun⟩

/-- What is left in the slot of the value is not one of the values. -/
theorem values_of_pop (h : stack.pop = some (value, stack')) :
    stack.values = value :: stack'.values := by
  obtain ⟨slots, size, hsize⟩ := stack
  cases size with
  | zero => cases h
  | succ size =>
    cases h
    have hlength : size < slots.toList.length := by
      rw [Vector.length_toList]
      exact hsize
    change (slots.toList.take (size + 1)).reverse = slots[size] :: (slots.toList.take size).reverse
    rw [List.take_add_one, List.getElem?_eq_getElem hlength, List.reverse_append]
    rfl

theorem peek_eq (depth : Nat) : stack.peek depth = stack.values[depth]? := by
  unfold peek
  split
  · rename_i h
    have hlength : (stack.slots.toList.take stack.size).length = stack.size :=
      List.length_reverse.symm.trans length_values
    unfold values
    rw [List.getElem?_reverse (by omega), hlength, List.getElem?_take_of_lt (by omega),
      Vector.getElem?_toList]
  · rename_i h
    rw [List.getElem?_eq_none]
    rw [length_values]
    exact Nat.le_of_not_lt h

end ValueStack

end Unwinding
