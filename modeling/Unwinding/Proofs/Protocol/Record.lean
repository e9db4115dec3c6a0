import Unwinding.Proofs.Protocol.Round

/-!
# A record of the calls of an unwind

An operation of the protocol calls its walker and the routines of the language
runtime, and what it calls next depends on what they answer. Nothing else of it
can be seen from outside. So walkers and routines are given a memory here: they
do what they did before and write down each call with its answer. An operation
that is run with them comes to the same result and leaves a record of its calls.

A walker and a routine do not see each other, so the record is kept in two parts.
A routine is called on the context of the walker, and the use of the context has
its place among the walker's calls: that is where the two parts fit together.
-/

namespace Unwinding

/-- A call that the protocol makes, with its answer. -/
inductive ProtocolCall where
  | rewind
  | next (answer : Except WalkError (Option WalkFrame))
  | unwoundPast (answer : Except WalkError Unit)
  | install (answer : Except WalkError Unit)
  | personality (address : Word) (action : Action) (answer : Reason)
  | stop (address : Word) (action : Action) (argument : Word) (answer : Reason)

namespace ProtocolCall

/-- What a walker sees of a call: of one to a routine, no more than that the context
is used. -/
def seen : ProtocolCall → Option ProtocolCall
  | personality .. | stop .. => none
  | call => some call

/-- What routines see of a call: nothing of one to the walker. -/
def heard : ProtocolCall → Option ProtocolCall
  | call@(personality ..) | call@(stop ..) => some call
  | _ => none

end ProtocolCall

/-- A walker that remembers the calls to it. -/
structure Recorder (W : Type) where
  walker : W
  calls : List (Option ProtocolCall)

instance {W : Type} [FrameWalker W] : FrameWalker (Recorder W) where
  rewind recorder :=
    ⟨FrameWalker.rewind recorder.walker, recorder.calls ++ [some .rewind]⟩
  next recorder :=
    let (answer, walker) := FrameWalker.next recorder.walker
    (answer, ⟨walker, recorder.calls ++ [some (.next answer)]⟩)
  context recorder := FrameWalker.context recorder.walker
  setContext recorder context :=
    ⟨FrameWalker.setContext recorder.walker context, recorder.calls ++ [none]⟩
  unwoundPast recorder :=
    let (answer, walker) := FrameWalker.unwoundPast recorder.walker
    (answer, ⟨walker, recorder.calls ++ [some (.unwoundPast answer)]⟩)
  install recorder :=
    let (answer, walker) := FrameWalker.install recorder.walker
    (answer, ⟨walker, recorder.calls ++ [some (.install answer)]⟩)

/-- Routines that remember the calls to them. -/
def Routines.recording {ω : Type} (routines : Routines ω) :
    Routines (ω × List ProtocolCall) where
  personality address action context state :=
    let (answer, context, exception, world) :=
      routines.personality address action context (state.1, state.2.1)
    (answer, context, exception, world, state.2.2 ++ [.personality address action answer])
  stop address action kind argument context state :=
    let (answer, context, exception, world) :=
      routines.stop address action kind argument context (state.1, state.2.1)
    (answer, context, exception, world, state.2.2 ++ [.stop address action argument answer])

/-- How a frame is asked for an action: with this answer, by these calls. -/
inductive WalkFrame.Asked (frame : WalkFrame) (action : Action) :
    Reason → List ProtocolCall → Prop where
  | absent (nobody : frame.personality = none) : Asked frame action .continueUnwind []
  | called {address : Word} {answer : Reason} (somebody : frame.personality = some address) :
    Asked frame action answer [.personality address action answer]

/-- What a call with this answer does to a walker. A routine may leave any context behind. -/
inductive Moves {W : Type} [FrameWalker W] : W → ProtocolCall → W → Prop where
  | rewind (walker : W) : Moves walker .rewind (FrameWalker.rewind walker)
  | next {walker : W} {answer : Except WalkError (Option WalkFrame)}
    (answers : (FrameWalker.next walker).1 = answer) :
    Moves walker (.next answer) (FrameWalker.next walker).2
  | unwoundPast {walker : W} {answer : Except WalkError Unit}
    (answers : (FrameWalker.unwoundPast walker).1 = answer) :
    Moves walker (.unwoundPast answer) (FrameWalker.unwoundPast walker).2
  | install {walker : W} {answer : Except WalkError Unit}
    (answers : (FrameWalker.install walker).1 = answer) :
    Moves walker (.install answer) (FrameWalker.install walker).2
  | personality (walker : W) {address : Word} {action : Action} {answer : Reason}
    (context : Context) :
    Moves walker (.personality address action answer) (FrameWalker.setContext walker context)
  | stop (walker : W) {address argument : Word} {action : Action} {answer : Reason}
    (context : Context) :
    Moves walker (.stop address action argument answer) (FrameWalker.setContext walker context)

/-- These calls lead a walker from one state to another. -/
inductive Leads {W : Type} [FrameWalker W] : W → List ProtocolCall → W → Prop where
  | nil (walker : W) : Leads walker [] walker
  | cons {walker walker' walker'' : W} {call : ProtocolCall} {calls : List ProtocolCall}
    (moves : Moves walker call walker') (rest : Leads walker' calls walker'') :
    Leads walker (call :: calls) walker''

namespace Leads

variable {W : Type} [FrameWalker W] {walker walker' walker'' : W} {call : ProtocolCall}
  {calls calls' : List ProtocolCall}

theorem single (h : Moves walker call walker') : Leads walker [call] walker' :=
  .cons h (.nil walker')

theorem append (h : Leads walker calls walker') (h' : Leads walker' calls' walker'') :
    Leads walker (calls ++ calls') walker'' := by
  induction h with
  | nil => exact h'
  | cons moves rest ih => exact .cons moves (ih h')

theorem of_rewind (h : Leads walker (.rewind :: calls) walker') :
    Leads (FrameWalker.rewind walker) calls walker' := by
  cases h with
  | cons moves rest =>
    cases moves
    exact rest

theorem of_next {answer : Except WalkError (Option WalkFrame)}
    (h : Leads walker (.next answer :: calls) walker') :
    (FrameWalker.next walker).1 = answer ∧ Leads (FrameWalker.next walker).2 calls walker' := by
  cases h with
  | cons moves rest =>
    cases moves with
    | next answers => exact ⟨answers, rest⟩

theorem of_unwoundPast {answer : Except WalkError Unit}
    (h : Leads walker (.unwoundPast answer :: calls) walker') :
    (FrameWalker.unwoundPast walker).1 = answer ∧
      Leads (FrameWalker.unwoundPast walker).2 calls walker' := by
  cases h with
  | cons moves rest =>
    cases moves with
    | unwoundPast answers => exact ⟨answers, rest⟩

theorem of_install {answer : Except WalkError Unit}
    (h : Leads walker (.install answer :: calls) walker') :
    (FrameWalker.install walker).1 = answer ∧
      Leads (FrameWalker.install walker).2 calls walker' := by
  cases h with
  | cons moves rest =>
    cases moves with
    | install answers => exact ⟨answers, rest⟩

theorem of_nil (h : Leads walker [] walker') : walker' = walker := by
  cases h
  rfl

/-- Between any two calls a walker is in some state. -/
theorem split (h : Leads walker (calls ++ calls') walker'') :
    ∃ walker', Leads walker calls walker' ∧ Leads walker' calls' walker'' := by
  induction calls generalizing walker with
  | nil => exact ⟨walker, .nil walker, h⟩
  | cons call calls ih =>
    cases h with
    | cons moves rest =>
      obtain ⟨walker', hbefore, hafter⟩ := ih rest
      exact ⟨walker', .cons moves hbefore, hafter⟩

end Leads

namespace Unwind

/-- The unwind whose walker and routines remember these calls. -/
def recorded {W ω : Type} (unwind : Unwind W ω) (calls : List ProtocolCall) :
    Unwind (Recorder W) (ω × List ProtocolCall) where
  walker := ⟨unwind.walker, calls.map ProtocolCall.seen⟩
  phase := unwind.phase
  failure := unwind.failure
  exception := unwind.exception
  world := (unwind.world, calls.filterMap ProtocolCall.heard)

theorem exception_recorded {W ω : Type} (unwind : Unwind W ω) (calls : List ProtocolCall) :
    (unwind.recorded calls).exception = unwind.exception := rfl

variable {W ω : Type} [FrameWalker W] (routines : Routines ω) (unwind : Unwind W ω)
  (calls : List ProtocolCall)

theorem rewound_recorded :
    rewound (unwind.recorded calls) = (rewound unwind).recorded (calls ++ [.rewind]) := by
  simp [recorded, rewound, FrameWalker.rewind, ProtocolCall.seen, ProtocolCall.heard]

theorem searching_recorded :
    searching (unwind.recorded calls) = (searching unwind).recorded (calls ++ [.rewind]) :=
  rewound_recorded (enter .searching (marked 0 0 unwind)) calls

theorem cleaning_recorded :
    cleaning (unwind.recorded calls) = (cleaning unwind).recorded (calls ++ [.rewind]) :=
  rewound_recorded (enter .cleaningUp unwind) calls

theorem next_answer_recorded : (FrameWalker.next (unwind.recorded calls).walker).1 =
    (FrameWalker.next unwind.walker).1 := rfl

theorem after_next_recorded :
    after next (unwind.recorded calls) =
      (after next unwind).recorded (calls ++ [.next (FrameWalker.next unwind.walker).1]) := by
  simp [next, act, after, recorded, FrameWalker.next, ProtocolCall.seen, ProtocolCall.heard]

theorem unwoundPast_answer_recorded : (FrameWalker.unwoundPast (unwind.recorded calls).walker).1 =
    (FrameWalker.unwoundPast unwind.walker).1 := rfl

theorem after_unwoundPast_recorded :
    after unwoundPast (unwind.recorded calls) = (after unwoundPast unwind).recorded
      (calls ++ [.unwoundPast (FrameWalker.unwoundPast unwind.walker).1]) := by
  simp [unwoundPast, act, after, recorded, FrameWalker.unwoundPast, ProtocolCall.seen,
    ProtocolCall.heard]

theorem install_answer_recorded : (FrameWalker.install (unwind.recorded calls).walker).1 =
    (FrameWalker.install unwind.walker).1 := rfl

theorem after_install_recorded :
    after install (unwind.recorded calls) = (after install unwind).recorded
      (calls ++ [.install (FrameWalker.install unwind.walker).1]) := by
  simp [install, act, after, recorded, FrameWalker.install, ProtocolCall.seen, ProtocolCall.heard]

theorem reply_recorded (frame : WalkFrame) (action : Action) :
    reply routines.recording (unwind.recorded calls) frame action =
      reply routines unwind frame action := by
  cases h : frame.personality <;> simp only [reply, h] <;> rfl

theorem after_askPersonality_recorded (frame : WalkFrame) (action : Action) :
    ∃ asked, frame.Asked action (reply routines unwind frame action) asked ∧
      after (askPersonality routines.recording frame action) (unwind.recorded calls) =
        (after (askPersonality routines frame action) unwind).recorded (calls ++ asked) ∧
      Leads unwind.walker asked (after (askPersonality routines frame action) unwind).walker := by
  cases h : frame.personality with
  | none =>
    refine ⟨[], ?_, ?_, ?_⟩
    · simp only [reply, h]
      exact .absent h
    · simp only [askPersonality, after, h, List.append_nil]
      rfl
    · simp only [askPersonality, after, h]
      exact .nil unwind.walker
  | some address =>
    refine ⟨[.personality address action (reply routines unwind frame action)], .called h, ?_, ?_⟩
    · simp [askPersonality, reply, after, h, call_eq, recorded, FrameWalker.context,
        FrameWalker.setContext, Routines.recording, ProtocolCall.seen, ProtocolCall.heard]
    · simp only [askPersonality, after, h]
      exact .single (.personality unwind.walker _)

theorem heard_recorded {frame : WalkFrame} (action : Action)
    (came : (FrameWalker.next unwind.walker).1 = .ok (some frame)) :
    ∃ asked, frame.Asked action (reply routines (after next unwind) frame action) asked ∧
      heard routines.recording (unwind.recorded calls) frame action =
        (heard routines unwind frame action).recorded
          (calls ++ .next (.ok (some frame)) :: asked) ∧
      Leads unwind.walker (.next (.ok (some frame)) :: asked)
        (heard routines unwind frame action).walker := by
  obtain ⟨asked, asks, hasked, hleads⟩ := after_askPersonality_recorded routines (after next unwind)
    (calls ++ [.next (.ok (some frame))]) frame action
  refine ⟨asked, asks, ?_, .cons (.next came) hleads⟩
  rw [heard, after_next_recorded, came, hasked, List.append_assoc]
  rfl

theorem stopReply_recorded (begun : Exception) (action : Action) :
    stopReply routines.recording (unwind.recorded calls) begun action =
      stopReply routines unwind begun action := rfl

theorem after_askStop_recorded (begun : Exception) (action : Action) :
    after (askStop routines.recording begun action) (unwind.recorded calls) =
      (after (askStop routines begun action) unwind).recorded (calls ++
        [.stop begun.stop action begun.target (stopReply routines unwind begun action)]) := by
  simp [askStop, stopReply, after, call_eq, recorded, FrameWalker.context,
    FrameWalker.setContext, Routines.recording, ProtocolCall.seen, ProtocolCall.heard]

end Unwind

end Unwinding
