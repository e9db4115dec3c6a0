import Unwinding.CallFrame.Error
import Unwinding.Expression

/-!
# Rows of the table of rules

A row says how to find the caller's registers at one location: first the
frame address, then a rule for each register, relative to it.
-/

namespace Unwinding

/-- Where the caller's value of a register is. -/
inductive Rule where
  /-- No rule was given: the register keeps its value. -/
  | unused
  /-- The value is lost. -/
  | undefined
  /-- In another register of the callee. -/
  | inRegister (source : Register)
  /-- Saved at an offset from the frame address. -/
  | inCfa (offset : Int64)
  /-- Saved likewise, combined with the window cookie. -/
  | inCfaDecrypted (offset : Int64)
  /-- Saved where the expression says. -/
  | atExpression (expression : Expression)
  /-- What the expression says. -/
  | isExpression (expression : Expression)
  /-- The frame address plus an offset. -/
  | offsetFromCfa (offset : Int64)
  deriving Repr, DecidableEq

namespace Rule

def name : Rule → String
  | unused => "Unused"
  | undefined => "Undefined"
  | inRegister _ => "InRegister"
  | inCfa _ => "InCfa"
  | inCfaDecrypted _ => "InCfaDecrypted"
  | atExpression _ => "AtExpression"
  | isExpression _ => "IsExpression"
  | offsetFromCfa _ => "OffsetFromCfa"

/-- A rule with its operand. -/
def describe (rule : Rule) : String :=
  match rule with
  | unused | undefined => rule.name
  | inRegister source => s!"{rule.name}(Register({source}))"
  | inCfa offset | inCfaDecrypted offset | offsetFromCfa offset =>
    s!"{rule.name}({offset.toInt})"
  | atExpression expression | isExpression expression =>
    s!"{rule.name}({expression.describe})"

end Rule

/-- How the frame address is found. -/
inductive CfaRule where
  /-- No rule was given. -/
  | undefined
  | registerOffset (register : Register) (offset : Int64)
  | expression (expression : Expression)
  deriving Repr, DecidableEq

/-- The columns a row has room for; every architecture needs fewer. -/
abbrev Row.capacity : Nat := 128

structure Row where
  cfa : CfaRule
  rules : Vector Rule Row.capacity
  /-- The column whose rule gives the return address. -/
  returnAddress : Register
  argsSize : Word
  /-- The return address carries a signature. -/
  raSigned : Bool
  /-- The frame was entered by a signal, so its caller's address is exact. -/
  signalFrame : Bool
  deriving Repr, DecidableEq

namespace Row

/-- The row before any instruction. -/
def empty (returnAddress : Register) : Row where
  cfa := .undefined
  rules := Vector.replicate capacity .unused
  returnAddress
  argsSize := 0
  raSigned := false
  signalFrame := false

/-- The rule of a register; beyond the capacity there are none. -/
def rule (row : Row) (r : Register) : Rule := row.rules[r]?.getD .unused

def setRule (row : Row) (r : Register) (rule : Rule) : Except CfiError Row :=
  if h : r < capacity then .ok { row with rules := row.rules.set r rule h }
  else .error (.badRegister r)

/-- Gives several registers their rules, in order. -/
def setRules (row : Row) (rules : List (Register × Rule)) : Except CfiError Row :=
  rules.foldlM (fun row (r, rule) => row.setRule r rule) row

/-- The registers with a rule, in ascending order. -/
def listed (row : Row) : List (Register × Rule) :=
  (List.range capacity).filterMap fun r =>
    if row.rule r = .unused then none else some (r, row.rule r)

theorem rule_setRule {row row' : Row} {r : Register} {rule : Rule}
    (h : row.setRule r rule = .ok row') (r' : Register) :
    row'.rule r' = if r' = r then rule else row.rule r' := by
  unfold setRule at h
  split at h
  · rename_i hr
    cases h
    by_cases he : r' = r
    · subst he
      simp [Row.rule, hr]
    · have hne : ¬ r = r' := fun h => he h.symm
      simp [Row.rule, hne, he]
  · cases h

theorem rule_empty (returnAddress r : Register) : (empty returnAddress).rule r = .unused := by
  simp only [Row.rule, empty, Vector.getElem?_replicate]
  split <;> rfl

end Row

end Unwinding
