/-!
# Permutations in mixed radix

The order in which up to six registers were saved is one number: its first
digit chooses among six, its second among the five left, and so on. Each
digit is the rank of the chosen register among those not yet chosen. As the
last of six is forced, orders of five and of six are numbered alike.
-/

namespace Unwinding.Permutation

/-- The weights of the digits, for an order of `count` registers. -/
def weights : (count : Nat) → List Nat
  | 5 | 6 => [120, 24, 6, 2, 1]
  | 4 => [60, 12, 3, 1]
  | 3 => [20, 4, 1]
  | 2 => [5, 1]
  | 1 => [1]
  | _ => []

/-- The digits of `code`. Nothing bounds the first of them. -/
def digits : List Nat → (code : Nat) → List Nat
  | [], _ => []
  | weight :: rest, code => code / weight :: digits rest (code % weight)

/-- Chooses from `free` by rank. A rank that is too high chooses nothing, and
then register 0 is named in its place. -/
def choose : (free : List Nat) → (ranks : List Nat) → List Nat
  | _, [] => []
  | free, rank :: ranks =>
    match free[rank]? with
    | some r => r :: choose (free.eraseIdx rank) ranks
    | none => 0 :: choose free ranks

/-- The first `count` of the six numbers in the order of `code`; zeros fill
up the rest. -/
def decode (count code : Nat) : List Nat :=
  let ranks := (digits (weights count) code ++ List.replicate 6 0).take count
  (choose (List.range 6) ranks ++ List.replicate 6 0).take 6

end Unwinding.Permutation
