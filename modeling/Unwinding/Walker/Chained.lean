import Unwinding.FrameWalker
import Unwinding.Thread.Chain

/-!
# Walking the stack of a running thread

This walker goes through the functions of a chain from the innermost outward.
A function is known by its stack pointer. Where a function is to go on, once
it was installed, is in the context that its personality left.
-/

namespace Unwinding

structure ChainedWalker where
  chain : Chain
  /-- The functions still to be visited. -/
  ahead : Chain
  /-- The current function, if the walk has come to one. -/
  current : Option ChainFrame
  context : Context
  /-- The function to resume in, and how, once one was installed. -/
  landing : Option (ChainFrame × Context)
  deriving Repr, DecidableEq

namespace ChainedWalker

def start (chain : Chain) : ChainedWalker := ⟨chain, chain, none, Context.blank, none⟩

def next (walker : ChainedWalker) : Except WalkError (Option WalkFrame) × ChainedWalker :=
  match walker.ahead with
  | [] => (.ok none, walker)
  | frame :: ahead =>
    (.ok (some ⟨frame.sp, frame.personality⟩),
      { walker with ahead, current := some frame, context := frame.context })

def install (walker : ChainedWalker) : Except WalkError Unit × ChainedWalker :=
  (.ok (), { walker with landing := walker.current.map (·, walker.context) })

instance : FrameWalker ChainedWalker where
  rewind walker := start walker.chain
  next := next
  context := (·.context)
  setContext walker context := { walker with context }
  unwoundPast walker := (.ok (), walker)
  install := install

end ChainedWalker

end Unwinding
