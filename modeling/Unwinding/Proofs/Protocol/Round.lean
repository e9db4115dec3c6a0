import Unwinding.Proofs.Protocol.Operation

/-!
# One round of the protocol

Each loop of the protocol takes a step to the next frame, asks routines about it
and acts on their answers, and then begins again one frame further out. What a
round comes to is said here once for each loop and for any walker, whatever it
answers; nothing else about a loop is needed to follow it by induction.
-/

namespace Unwinding

/-- What a frame is asked for in the second phase. -/
def WalkFrame.duty (frame : WalkFrame) (handler : Word) : Action :=
  if frame.id = handler then .handle else .cleanup

namespace Unwind

variable {W ω : Type} [FrameWalker W] (routines : Routines ω) (unwind : Unwind W ω)

/-- What the protocol takes for the answer of a frame: one without a personality
continues. -/
def reply (frame : WalkFrame) (action : Action) : Reason :=
  match frame.personality with
  | none => .continueUnwind
  | some address => (routines.personality address action (FrameWalker.context unwind.walker)
      (unwind.exception, unwind.world)).1

/-- What the stop function of a forced unwind answers. -/
def stopReply (begun : Exception) (action : Action) : Reason :=
  (routines.stop begun.stop action begun.kind begun.target (FrameWalker.context unwind.walker)
    (unwind.exception, unwind.world)).1

theorem askPersonality_eq (frame : WalkFrame) (action : Action) :
    askPersonality routines frame action unwind = some (.ok (reply routines unwind frame action),
      after (askPersonality routines frame action) unwind) := by
  cases h : frame.personality <;> simp only [askPersonality, reply, after, h] <;> rfl

theorem askStop_eq (begun : Exception) (action : Action) :
    askStop routines begun action unwind = some (.ok (stopReply routines unwind begun action),
      after (askStop routines begun action) unwind) := rfl

theorem phase_askPersonality (frame : WalkFrame) (action : Action) :
    (after (askPersonality routines frame action) unwind).phase = unwind.phase := by
  cases h : frame.personality <;> simp only [after, askPersonality, h] <;> rfl

theorem words_askPersonality {routines : Routines ω} (discreet : routines.Discreet)
    (frame : WalkFrame) (action : Action) :
    (after (askPersonality routines frame action) unwind).exception.words =
      unwind.exception.words := by
  cases h : frame.personality with
  | none =>
    simp only [after, askPersonality, h]
    rfl
  | some address =>
    simp only [after, askPersonality, h]
    exact discreet address action _ _ _

/-- The unwind when it has come to a frame and asked it. -/
def heard (frame : WalkFrame) (action : Action) : Unwind W ω :=
  after (askPersonality routines frame action) (after next unwind)

theorem phase_heard (frame : WalkFrame) (action : Action) :
    (heard routines unwind frame action).phase = unwind.phase :=
  phase_askPersonality routines (after next unwind) frame action

theorem words_heard {routines : Routines ω} (discreet : routines.Discreet) (frame : WalkFrame)
    (action : Action) :
    (heard routines unwind frame action).exception.words = unwind.exception.words :=
  words_askPersonality (after next unwind) discreet frame action

variable (budget : Nat)

theorem searchFrames_succ :
    searchFrames routines (budget + 1) unwind =
      match (FrameWalker.next unwind.walker).1 with
      | .error error => some (.error error, after next unwind)
      | .ok none => some (.ok none, after next unwind)
      | .ok (some frame) =>
        let answer := reply routines (after next unwind) frame .search
        let heard := heard routines unwind frame .search
        if answer = .handlerFound then some (.ok (some frame.id), heard)
        else if answer = .continueUnwind then searchFrames routines budget heard
        else some (.error (.personality 1 answer), heard) := by
  rw [searchFrames, walk_bind, next_eq]
  rcases (FrameWalker.next unwind.walker).1 with error | _ | frame
  · rfl
  · rfl
  · dsimp only
    rw [bind_ok (askPersonality_eq routines (after next unwind) frame .search)]
    cases reply routines (after next unwind) frame .search <;> rfl

theorem cleanupFrames_succ (handler : Word) :
    cleanupFrames routines handler (budget + 1) unwind =
      match (FrameWalker.next unwind.walker).1 with
      | .error error => some (.error error, after next unwind)
      | .ok none => some (.error (.handlerLost handler), after next unwind)
      | .ok (some frame) =>
        let answer := reply routines (after next unwind) frame (frame.duty handler)
        let heard := heard routines unwind frame (frame.duty handler)
        if answer = .installContext then
          match (FrameWalker.install heard.walker).1 with
          | .error error => some (.error error, after install heard)
          | .ok () => some (.ok .installContext,
              if frame.id = handler then enter .complete (after install heard)
              else after install heard)
        else if answer = .continueUnwind ∧ frame.id ≠ handler then
          match (FrameWalker.unwoundPast heard.walker).1 with
          | .error error => some (.error error, after unwoundPast heard)
          | .ok () => cleanupFrames routines handler budget (after unwoundPast heard)
        else some (.error (.personality 2 answer), heard) := by
  rw [cleanupFrames, walk_bind, next_eq]
  rcases (FrameWalker.next unwind.walker).1 with error | _ | frame
  · rfl
  · rfl
  · simp only [decide_eq_true_eq]
    rw [← WalkFrame.duty, bind_ok (askPersonality_eq routines (after next unwind) frame _)]
    dsimp only [heard]
    generalize after (askPersonality routines frame _) (after next unwind) = heard
    cases reply routines (after next unwind) frame (frame.duty handler)
    case installContext =>
      dsimp only
      rw [walk_bind, install_eq, if_pos rfl]
      cases (FrameWalker.install heard.walker).1 with
      | error error => rfl
      | ok => dsimp only; split <;> rfl
    case continueUnwind =>
      dsimp only
      rw [if_neg (show ¬Reason.continueUnwind = .installContext from nofun)]
      by_cases hat : frame.id = handler
      · rw [if_pos hat, if_neg (fun h => h.2 hat)]
        rfl
      · rw [if_neg hat, if_pos ⟨rfl, hat⟩, walk_bind, unwoundPast_eq]
        cases (FrameWalker.unwoundPast heard.walker).1 <;> rfl
    all_goals rfl

theorem forceFrames_succ (begun : Exception) :
    forceFrames routines begun (budget + 1) unwind =
      match (FrameWalker.next unwind.walker).1 with
      | .error error => some (.error error, after next unwind)
      | .ok none => some (.ok .endOfStack,
          enter .complete (after (askStop routines begun .forceEnd) (after next unwind)))
      | .ok (some frame) =>
        let verdict := stopReply routines (after next unwind) begun .force
        let stopped := after (askStop routines begun .force) (after next unwind)
        if verdict = .noReason then
          let answer := reply routines stopped frame .force
          let heard := after (askPersonality routines frame .force) stopped
          if answer = .installContext then
            match (FrameWalker.install heard.walker).1 with
            | .error error => some (.error error, after install heard)
            | .ok () => some (.ok .installContext, after install heard)
          else if answer = .continueUnwind then
            match (FrameWalker.unwoundPast heard.walker).1 with
            | .error error => some (.error error, after unwoundPast heard)
            | .ok () => forceFrames routines begun budget (after unwoundPast heard)
          else some (.error (.personality 2 answer), heard)
        else some (.error (.stopped verdict), stopped) := by
  rw [forceFrames, walk_bind, next_eq]
  rcases (FrameWalker.next unwind.walker).1 with error | _ | frame
  · rfl
  · rfl
  · dsimp only
    rw [bind_ok (askStop_eq routines (after next unwind) begun .force)]
    generalize after (askStop routines begun .force) (after next unwind) = stopped
    by_cases h : stopReply routines (after next unwind) begun .force = .noReason
    · rw [if_pos h]
      simp only [h, ne_eq, not_true, if_false]
      rw [bind_ok (askPersonality_eq routines stopped frame .force)]
      generalize after (askPersonality routines frame .force) stopped = heard
      cases reply routines stopped frame .force
      case installContext =>
        dsimp only
        rw [walk_bind, install_eq, if_pos rfl]
        cases (FrameWalker.install heard.walker).1 <;> rfl
      case continueUnwind =>
        dsimp only
        rw [walk_bind, unwoundPast_eq]
        cases (FrameWalker.unwoundPast heard.walker).1 <;> rfl
      all_goals rfl
    · rw [if_neg h]
      simp only [ne_eq, h, not_false_eq_true, if_true]
      rfl

end Unwind

end Unwinding
