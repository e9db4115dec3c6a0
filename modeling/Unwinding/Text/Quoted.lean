import Unwinding.Text.Hex

/-!
# Quoted characters

One byte, taken as the character with that code, is shown between single
quotes. The quote and the backslash are escaped by a backslash, four control
characters have a letter, and the other invisible ones show their code.
-/

namespace Unwinding.Quoted

/-- Characters below 256 that leave no visible mark. -/
def isInvisible (code : Nat) : Bool :=
  decide (code < 0x20 ∨ (0x7f ≤ code ∧ code ≤ 0xa0) ∨ code = 0xad)

/-- The text of one character between the quotes. -/
def escape (byte : UInt8) : String :=
  match byte.toNat with
  | 0x00 => "\\0"
  | 0x09 => "\\t"
  | 0x0a => "\\n"
  | 0x0d => "\\r"
  | 0x27 => "\\'"
  | 0x5c => "\\\\"
  | code =>
    if isInvisible code then "\\u\x7b" ++ Hex.digits code ++ "\x7d"
    else String.singleton (Char.ofNat code)

def character (byte : UInt8) : String := "'" ++ escape byte ++ "'"

end Unwinding.Quoted
