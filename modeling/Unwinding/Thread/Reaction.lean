import Unwinding.Thread.Chain

/-!
# Reactions of the functions on a stack

The personalities of a running thread follow scripts, too. Their rules name
functions and sites instead of addresses, and a rule can send a function to
its landing pad. Such a rule stands for one rule for every place that it is
about.
-/

namespace Unwinding

/-- Where a function is: after its call, or at its landing pad. -/
inductive Site where
  | call
  | pad
  deriving Repr, DecidableEq

def ChainFrame.site (frame : ChainFrame) (context : Context) : Site :=
  if context.ip = frame.callSite then .call else .pad

/-- A rule that may be for one function, by index, or for one site. -/
structure ChainReaction where
  mask : Nat
  flags : Nat
  nth : Option Nat
  index : Option Nat
  site : Option Site
  /-- The value to land with. -/
  land : Option Word
  answer : Option Reason
  deriving Repr, DecidableEq

namespace ChainReaction

/-- The places where a function can be. -/
def places (frame : ChainFrame) : List (Site × Word) :=
  [(.call, frame.callSite), (.pad, frame.landingPad), (.pad, frame.padSite)]

/-- Landing hands over a value and goes on at the pad. -/
def acts (rule : ChainReaction) (frame : ChainFrame) : List Script.Act :=
  match rule.land with
  | some value => [.setRegister 1 value, .setIp frame.landingPad]
  | none => []

/-- The rule at one place, or everywhere. -/
def placed (rule : ChainReaction) (ip : Option Word) (acts : List Script.Act) : Script.Reaction :=
  ⟨rule.mask, rule.flags, ip, rule.nth, acts, rule.answer⟩

/-- The rules for all places on a chain. The two ends of the stack are neither
a function with an index nor a site, and nothing lands there. -/
def spread (chain : Chain) (rule : ChainReaction) : List Script.Reaction :=
  let inside := chain.filter fun frame =>
    frame.kind.isSome && rule.index.all fun index => frame.index = some index
  let atPlaces := inside.flatMap fun frame =>
    ((places frame).filter fun place => rule.site.all (· = place.1)).map fun place =>
      rule.placed (some place.2) (rule.acts frame)
  if rule.index.isNone ∧ rule.site.isNone then atPlaces ++ [rule.placed none []] else atPlaces

end ChainReaction

end Unwinding
