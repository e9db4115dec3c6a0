/-!
# Hexadecimal text

Addresses are written with as many digits as they need, opcode and encoding
bytes with two, and packed words with eight.
-/

namespace Unwinding.Hex

/-- The digits of `n`, most significant first, without leading zeros. -/
def digits (n : Nat) : String := String.ofList (Nat.toDigits 16 n)

/-- The digits of `n`, filled with zeros on the left up to `width`. -/
def padded (width n : Nat) : String :=
  let ds := Nat.toDigits 16 n
  String.ofList (List.replicate (width - ds.length) '0' ++ ds)

/-- An address or a register value. -/
def word (w : UInt64) : String := "0x" ++ digits w.toNat

/-- An opcode or an encoding byte, always with both digits. -/
def byte (b : UInt8) : String := "0x" ++ padded 2 b.toNat

/-- A packed 32-bit word, always with all its digits. -/
def packed (w : UInt32) : String := "0x" ++ padded 8 w.toNat

/-- A piece of memory, two digits for every byte. -/
def bytes (bs : List UInt8) : String := String.join (bs.map fun b => padded 2 b.toNat)

/-- The value of a digit of either case. -/
def digit? (c : Char) : Option Nat :=
  if '0' ≤ c ∧ c ≤ '9' then some (c.toNat - '0'.toNat)
  else if 'a' ≤ c ∧ c ≤ 'f' then some (c.toNat - 'a'.toNat + 10)
  else if 'A' ≤ c ∧ c ≤ 'F' then some (c.toNat - 'A'.toNat + 10)
  else none

/-- The number that digits stand for, most significant first. -/
def number? (digits : List Char) : Option Nat :=
  digits.foldlM (fun n c => (n * 16 + ·) <$> digit? c) 0

/-- The bytes that pairs of digits stand for. -/
def bytes? : List Char → Option (List UInt8)
  | [] => some []
  | a :: b :: rest => return UInt8.ofNat (← number? [a, b]) :: (← bytes? rest)
  | _ => none

end Unwinding.Hex
