import Unwinding.Memory

/-!
# Location expressions

An expression is a piece of code for a stack machine, stored in memory. Rules
refer to it by its place.
-/

namespace Unwinding

/-- The `length` bytes of code at `start`. -/
structure Expression where
  start : Word
  length : Word
  deriving Repr, DecidableEq

namespace Expression

/-- One past the last byte of the code. -/
def stop (expression : Expression) : Word := expression.start + expression.length

def describe (expression : Expression) : String :=
  "Expr \x7b start: " ++ toString expression.start.toNat ++ ", len: " ++
    toString expression.length.toNat ++ " \x7d"

end Expression

end Unwinding
