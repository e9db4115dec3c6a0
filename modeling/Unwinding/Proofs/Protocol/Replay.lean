import Unwinding.Proofs.Protocol.Record
import Unwinding.Walker.Chained

/-!
# Walks that can be repeated

The protocol walks the stack twice, so what it does can be foreseen only for a
walker that comes to the same frames both times. Such a walker is described by
a relation: `Stands walker current ahead` says that it has come to `current`
and that the frames `ahead` are still to come. The relation has to be kept by
everything the protocol does to the walker, and none of it may fail.
-/

namespace Unwinding

variable {W ω : Type} [FrameWalker W]

/-- The walker goes through the frames that are ahead of it and never fails. -/
structure Walks (Stands : W → Option WalkFrame → List WalkFrame → Prop) : Prop where
  /-- The next frame is the first of those ahead. -/
  next : ∀ {walker current frame ahead}, Stands walker current (frame :: ahead) →
    (FrameWalker.next walker).1 = .ok (some frame) ∧
      Stands (FrameWalker.next walker).2 (some frame) ahead
  /-- With no frame ahead, the stack ends. -/
  last : ∀ {walker current}, Stands walker current [] →
    (FrameWalker.next walker).1 = .ok none
  /-- Writes to the context of a frame do not lead elsewhere. -/
  setContext : ∀ {walker frame ahead} (context : Context), Stands walker (some frame) ahead →
    Stands (FrameWalker.setContext walker context) (some frame) ahead
  unwoundPast : ∀ {walker frame ahead}, Stands walker (some frame) ahead →
    (FrameWalker.unwoundPast walker).1 = .ok () ∧
      Stands (FrameWalker.unwoundPast walker).2 (some frame) ahead
  install : ∀ {walker frame ahead}, Stands walker (some frame) ahead →
    (FrameWalker.install walker).1 = .ok ()

/-- After each rewind the walker goes through `frames`. -/
structure Replays (frames : List WalkFrame)
    (Stands : W → Option WalkFrame → List WalkFrame → Prop) : Prop extends Walks Stands where
  rewind : ∀ {walker current ahead}, Stands walker current ahead →
    Stands (FrameWalker.rewind walker) none frames

/-- A personality that is shown the frame the walker has just come to answers
as `answer` says, whatever else it does to the context, the exception and the world. -/
def Answers (routines : Routines ω) (Stands : W → Option WalkFrame → List WalkFrame → Prop)
    (answer : WalkFrame → Action → Reason) : Prop :=
  ∀ (walker : W) (current : Option WalkFrame) (frame : WalkFrame) (ahead : List WalkFrame),
    Stands walker current (frame :: ahead) → ∀ address, frame.personality = some address →
      ∀ action exception world,
        (routines.personality address action (FrameWalker.context (FrameWalker.next walker).2)
          (exception, world)).1 = answer frame action

/-- What the protocol takes for the answer of a frame: one without a
personality continues. -/
def WalkFrame.reply (frame : WalkFrame) (answer : WalkFrame → Action → Reason)
    (action : Action) : Reason :=
  if frame.personality.isSome then answer frame action else .continueUnwind

namespace Unwind

variable {Stands : W → Option WalkFrame → List WalkFrame → Prop} {routines : Routines ω}
  {answer : WalkFrame → Action → Reason} {unwind : Unwind W ω} {current : Option WalkFrame}
  {frame : WalkFrame} {ahead : List WalkFrame}

theorem reply_next (answers : Answers routines Stands answer)
    (h : Stands unwind.walker current (frame :: ahead)) (action : Action) :
    reply routines (after next unwind) frame action = frame.reply answer action := by
  cases hp : frame.personality with
  | none => simp only [reply, WalkFrame.reply, hp, Option.isSome_none, Bool.false_eq_true, if_false]
  | some address =>
    simp only [reply, WalkFrame.reply, hp, Option.isSome_some, if_true]
    exact answers _ _ _ _ h address hp action unwind.exception unwind.world

theorem stands_askPersonality (routines : Routines ω) (walks : Walks Stands)
    (h : Stands unwind.walker (some frame) ahead) (action : Action) :
    Stands (after (askPersonality routines frame action) unwind).walker (some frame) ahead := by
  cases hp : frame.personality with
  | none =>
    simp only [after, askPersonality, hp]
    exact h
  | some address =>
    simp only [after, askPersonality, hp]
    exact walks.setContext _ h

theorem stands_heard (routines : Routines ω) (walks : Walks Stands)
    (h : Stands unwind.walker current (frame :: ahead)) (action : Action) :
    Stands (heard routines unwind frame action).walker (some frame) ahead :=
  stands_askPersonality routines walks (walks.next h).2 action

end Unwind

/-! ## The functions of a thread -/

/-- A function as a walk comes to it. -/
def ChainFrame.walkFrame (frame : ChainFrame) : WalkFrame := ⟨frame.sp, frame.personality⟩

/-- The walker goes through `chain` and has the functions `ahead` before it. -/
def ChainedWalker.Stands (chain : Chain) (walker : ChainedWalker) (_ : Option WalkFrame)
    (ahead : List WalkFrame) : Prop :=
  walker.chain = chain ∧ ahead = walker.ahead.map ChainFrame.walkFrame

theorem ChainedWalker.replays (chain : Chain) :
    Replays (chain.map ChainFrame.walkFrame) (ChainedWalker.Stands chain) where
  next {walker current frame ahead} h := by
    obtain ⟨hc, ha⟩ := h
    cases hw : walker.ahead with
    | nil => simp [hw] at ha
    | cons function functions =>
      rw [hw, List.map_cons, List.cons.injEq] at ha
      simp only [FrameWalker.next, ChainedWalker.next, hw]
      exact ⟨congrArg (fun f => Except.ok (some f)) ha.1.symm, hc, ha.2⟩
  last {walker current} h := by
    have hw : walker.ahead = [] := List.map_eq_nil_iff.mp h.2.symm
    simp only [FrameWalker.next, ChainedWalker.next, hw]
  setContext _ h := h
  unwoundPast h := ⟨rfl, h⟩
  install _ := rfl
  rewind h := ⟨h.1, congrArg (List.map ChainFrame.walkFrame) h.1.symm⟩

end Unwinding
