import Unwinding.Proofs.Protocol.Account

/-!
# Forced unwinds

A forced unwind has no search: the stop function sees each frame and, as long as
it has no reason to end the unwind, the personality of the frame is asked to clean
up. The stop function and its argument are taken from the exception once, when
the unwind begins. Which of the two kinds of unwind an exception is in, is written
in two words of the exception alone, so that a landing pad can go on with it on any
walker, as long as no routine has written them.
-/

namespace Unwinding

/-- The calls of a forced unwind over these frames, and how its walk ends. -/
inductive Forcing (stop argument : Word) :
    List WalkFrame → Except WalkError Reason → List ProtocolCall → Prop where
  | ended (answer : Reason) :
    Forcing stop argument [] (.ok .endOfStack)
      [.next (.ok none), .stop stop .forceEnd argument answer]
  | stopped {frame : WalkFrame} {ahead : List WalkFrame} {verdict : Reason}
    (other : verdict ≠ .noReason) :
    Forcing stop argument (frame :: ahead) (.error (.stopped verdict))
      [.next (.ok (some frame)), .stop stop .force argument verdict]
  | installed {frame : WalkFrame} {ahead : List WalkFrame} {asked : List ProtocolCall}
    (asks : frame.Asked .force .installContext asked) :
    Forcing stop argument (frame :: ahead) (.ok .installContext)
      (.next (.ok (some frame)) :: .stop stop .force argument .noReason ::
        (asked ++ [.install (.ok ())]))
  | refused {frame : WalkFrame} {ahead : List WalkFrame} {reason : Reason}
    {asked : List ProtocolCall} (asks : frame.Asked .force reason asked)
    (fatal : reason ≠ .installContext ∧ reason ≠ .continueUnwind) :
    Forcing stop argument (frame :: ahead) (.error (.personality 2 reason))
      (.next (.ok (some frame)) :: .stop stop .force argument .noReason :: asked)
  | left {frame : WalkFrame} {ahead : List WalkFrame} {result : Except WalkError Reason}
    {asked calls : List ProtocolCall} (asks : frame.Asked .force .continueUnwind asked)
    (rest : Forcing stop argument ahead result calls) :
    Forcing stop argument (frame :: ahead) result
      (.next (.ok (some frame)) :: .stop stop .force argument .noReason ::
        (asked ++ .unwoundPast (.ok ()) :: calls))

theorem Forcing.reason_of_ok {stop argument : Word} {frames : List WalkFrame} {reason : Reason}
    {made : List ProtocolCall} (h : Forcing stop argument frames (.ok reason) made) :
    reason = .endOfStack ∨ reason = .installContext := by
  generalize hresult : (Except.ok reason : Except WalkError Reason) = result at h
  induction h with
  | ended answer =>
    cases hresult
    exact .inl rfl
  | installed asks =>
    cases hresult
    exact .inr rfl
  | left asks rest ih => exact ih hresult
  | _ => cases hresult

namespace Unwind

/-- What a forced unwind over these frames has called when it answers and leaves
`unwind`. -/
inductive Forced {W ω : Type} (unwind : Unwind W ω) (stop argument : Word)
    (frames : List WalkFrame) : Reason → List ProtocolCall → Prop where
  | endOfStack {made : List ProtocolCall}
    (calls : Forcing stop argument frames (.ok .endOfStack) made)
    (phase : unwind.phase = .complete) :
    Forced unwind stop argument frames .endOfStack (.rewind :: made)
  | installContext {made : List ProtocolCall}
    (calls : Forcing stop argument frames (.ok .installContext) made)
    (phase : unwind.phase = .cleaningUp) :
    Forced unwind stop argument frames .installContext (.rewind :: made)
  | fatalPhase2Error {error : WalkError} {made : List ProtocolCall}
    (calls : Forcing stop argument frames (.error error) made)
    (phase : unwind.phase = .fatalError) (failure : unwind.failure = error.failure) :
    Forced unwind stop argument frames .fatalPhase2Error (.rewind :: made)

variable {W ω : Type} [FrameWalker W] {routines : Routines ω} {unwind unwind' : Unwind W ω}
  {budget : Nat} {stop argument : Word}

section Replayed

variable {Stands : W → Option WalkFrame → List WalkFrame → Prop} {current : Option WalkFrame}
  {frame : WalkFrame} {frames ahead : List WalkFrame}

theorem stopped_recorded {answer : Option WalkFrame} (routines : Routines ω) (begun : Exception)
    (came : (FrameWalker.next unwind.walker).1 = .ok answer) (action : Action)
    (calls : List ProtocolCall) :
    after (askStop routines.recording begun action) (after next (unwind.recorded calls)) =
      (after (askStop routines begun action) (after next unwind)).recorded
        (calls ++ [.next (.ok answer), .stop begun.stop action begun.target
          (stopReply routines (after next unwind) begun action)]) := by
  rw [after_next_recorded, came, after_askStop_recorded, List.append_assoc]
  rfl

theorem forceFrames_replayed (routines : Routines ω) (walks : Walks Stands)
    (h : Stands unwind.walker current frames) (begun : Exception)
    (enough : frames.length < budget) (calls : List ProtocolCall) :
    ∃ result unwind' made, forceFrames routines begun budget unwind = some (result, unwind') ∧
      forceFrames routines.recording begun budget (unwind.recorded calls) =
        some (result, unwind'.recorded (calls ++ made)) ∧
      Forcing begun.stop begun.target frames result made ∧
      (result = .ok .endOfStack → unwind'.phase = .complete) ∧
      (result = .ok .installContext → unwind'.phase = unwind.phase) := by
  obtain ⟨budget, rfl⟩ := Nat.exists_eq_add_one_of_ne_zero (Nat.ne_of_gt (Nat.zero_lt_of_lt enough))
  induction frames generalizing unwind current calls budget with
  | nil =>
    have hcame := walks.last h
    refine ⟨.ok .endOfStack, enter .complete (after (askStop routines begun .forceEnd)
      (after next unwind)), _, ?_, ?_,
      .ended (stopReply routines (after next unwind) begun .forceEnd), fun _ => rfl, nofun⟩
    · rw [forceFrames_succ, hcame]
    · rw [forceFrames_succ, next_answer_recorded, hcame]
      dsimp only
      rw [stopped_recorded routines begun hcame]
      rfl
  | cons frame ahead ih =>
    obtain ⟨hcame, hnext⟩ := walks.next h
    have hstands : Stands (after (askStop routines begun .force) (after next unwind)).walker
      (some frame) ahead := walks.setContext _ hnext
    have hphase : (after (askStop routines begun .force) (after next unwind)).phase =
      unwind.phase := rfl
    rw [forceFrames_succ, forceFrames_succ, next_answer_recorded, hcame]
    dsimp only
    rw [stopped_recorded routines begun hcame, after_next_recorded, stopReply_recorded]
    generalize after (askStop routines begun .force) (after next unwind) = stopped
      at hstands hphase
    by_cases hverdict : stopReply routines (after next unwind) begun .force = .noReason
    · rw [if_pos hverdict, if_pos hverdict]
      obtain ⟨asked, asks, hheard, -⟩ := after_askPersonality_recorded routines stopped
        (calls ++ [.next (.ok (some frame)), .stop begun.stop .force begun.target .noReason])
        frame .force
      have hphase' := phase_askPersonality routines stopped frame .force
      have hasked := stands_askPersonality routines walks hstands .force
      rw [hverdict, reply_recorded, hheard, List.append_assoc]
      generalize after (askPersonality routines frame .force) stopped = heard at hphase' hasked
      by_cases hinstall : reply routines stopped frame .force = .installContext
      · rw [if_pos hinstall, if_pos hinstall, install_answer_recorded, after_install_recorded,
          walks.install hasked]
        refine ⟨_, _, _, rfl, ?_, .installed (hinstall ▸ asks), nofun, fun _ => ?_⟩
        · simp
        · exact hphase'.trans hphase
      rw [if_neg hinstall, if_neg hinstall]
      by_cases hcontinue : reply routines stopped frame .force = .continueUnwind
      · obtain ⟨hleft, hbehind⟩ := walks.unwoundPast hasked
        rw [if_pos hcontinue, if_pos hcontinue, unwoundPast_answer_recorded,
          after_unwoundPast_recorded, hleft]
        rw [List.length_cons] at enough
        obtain ⟨budget, rfl⟩ := Nat.exists_eq_add_one_of_ne_zero (show budget ≠ 0 by omega)
        have hbehind : Stands (after unwoundPast heard).walker (some frame) ahead := hbehind
        obtain ⟨result, unwind', made, hrun, hrecorded, hforcing, hended, hinstalled⟩ :=
          ih hbehind (calls ++ [.next (.ok (some frame)),
            .stop begun.stop .force begun.target .noReason] ++ asked ++ [.unwoundPast (.ok ())])
            budget (by omega)
        refine ⟨result, unwind', _, hrun, ?_, .left (hcontinue ▸ asks) hforcing, hended,
          fun hresult => (hinstalled hresult).trans (hphase'.trans hphase)⟩
        simpa using hrecorded
      · rw [if_neg hcontinue, if_neg hcontinue]
        exact ⟨_, _, _, rfl, rfl, .refused asks ⟨hinstall, hcontinue⟩, nofun, nofun⟩
    · rw [if_neg hverdict, if_neg hverdict]
      exact ⟨_, _, _, rfl, rfl, .stopped hverdict, nofun, nofun⟩

/-- A forced unwind over a walk that can be repeated always ends. -/
theorem forced_replayed (replays : Replays frames Stands) (h : Stands unwind.walker current ahead)
    (enough : frames.length < budget) (stop argument : Word) :
    ∃ reason unwind' calls, forced routines stop argument budget unwind = some (reason, unwind') ∧
      forced routines.recording stop argument budget (unwind.recorded []) =
        some (reason, unwind'.recorded calls) ∧
      Forced unwind' stop argument frames reason calls := by
  have hmarked : marked stop argument (unwind.recorded []) =
    (marked stop argument unwind).recorded [] := rfl
  have hphase : (cleaning (marked stop argument unwind)).phase = .cleaningUp := rfl
  have hstands : Stands (cleaning (marked stop argument unwind)).walker none frames :=
    replays.rewind h
  rw [forced_eq, forced_eq, hmarked, force_eq, force_eq, cleaning_recorded, exception_recorded,
    List.nil_append]
  obtain ⟨result, walked, made, hrun, hrecorded, hforcing, hended, hinstalled⟩ :=
    forceFrames_replayed routines replays.toWalks hstands
      (marked stop argument unwind).exception enough [.rewind]
  cases result with
  | error error =>
    exact ⟨_, _, _, orFail_error hrun _, orFail_error hrecorded _,
      .fatalPhase2Error hforcing rfl rfl⟩
  | ok reason =>
    refine ⟨_, _, _, orFail_ok hrun _, orFail_ok hrecorded _, ?_⟩
    rcases hforcing.reason_of_ok with rfl | rfl
    · exact .endOfStack hforcing (hended rfl)
    · exact .installContext hforcing ((hinstalled rfl).trans hphase)

end Replayed

/-! ## What an exception remembers -/

/-- What the first operation on an exception, or the last one that began anew, was. -/
inductive Start where
  | raised (handler : Word)
  | forced (stop argument : Word)
  deriving Repr, DecidableEq

/-- The routines that such an unwind calls leave the words of the exception alone. Without
a stop function, only personalities are called. -/
def Start.Discreet (routines : Routines ω) : Start → Prop
  | raised _ => routines.Discreet
  | forced .. => routines.Discreet ∧
      ∀ address action kind argument,
        Routine.Discreet (routines.stop address action kind argument)

/-- The exception was last started so, on any walker, and perhaps resumed since then
on others, and no routine has written its words. A stop function is never at address
zero. -/
inductive Started : Exception → Start → Prop where
  | raised {W ω : Type} [FrameWalker W] {routines : Routines ω} {budget : Nat}
    {unwind unwind' : Unwind W ω} {reason : Reason} (discreet : routines.Discreet)
    (ran : raise routines budget unwind = some (reason, unwind')) :
    Started unwind'.exception (.raised unwind'.exception.target)
  | forced {W ω : Type} [FrameWalker W] {routines : Routines ω} {budget : Nat}
    {unwind unwind' : Unwind W ω} {stop argument : Word} {reason : Reason} (exists_stop : stop ≠ 0)
    (discreet : (Start.forced stop argument).Discreet routines)
    (ran : forced routines stop argument budget unwind = some (reason, unwind')) :
    Started unwind'.exception (.forced stop argument)
  | resumed {W ω : Type} [FrameWalker W] {routines : Routines ω} {budget : Nat}
    {unwind unwind' : Unwind W ω} {start : Start} {reason : Reason}
    (started : Started unwind.exception start) (discreet : start.Discreet routines)
    (ran : resume routines budget unwind = some (reason, unwind')) :
    Started unwind'.exception start
  | resumedOrForced {W ω : Type} [FrameWalker W] {routines : Routines ω} {budget : Nat}
    {unwind unwind' : Unwind W ω} {stop argument : Word} {reason : Reason}
    (started : Started unwind.exception (.forced stop argument))
    (discreet : (Start.forced stop argument).Discreet routines)
    (ran : resumeOrRethrow routines budget unwind = some (reason, unwind')) :
    Started unwind'.exception (.forced stop argument)
  | rethrown {W ω : Type} [FrameWalker W] {routines : Routines ω} {budget : Nat}
    {unwind unwind' : Unwind W ω} {handler : Word} {reason : Reason}
    (started : Started unwind.exception (.raised handler)) (discreet : routines.Discreet)
    (ran : resumeOrRethrow routines budget unwind = some (reason, unwind')) :
    Started unwind'.exception (.raised unwind'.exception.target)

/-- The words of an exception that was started so. -/
def Start.Words (exception : Exception) : Start → Prop
  | raised handler => exception.stop = 0 ∧ exception.target = handler
  | forced stop argument => stop ≠ 0 ∧ exception.stop = stop ∧ exception.target = argument

theorem Start.words_congr {exception exception' : Exception} {start : Start}
    (same : exception'.words = exception.words) (h : start.Words exception) :
    start.Words exception' := by
  obtain ⟨hstop, htarget⟩ := Prod.mk.inj same
  cases start with
  | raised handler => exact ⟨hstop.trans h.1, htarget.trans h.2⟩
  | forced stop argument => exact ⟨h.1, hstop.trans h.2.1, htarget.trans h.2.2⟩

theorem forceFrames_words {begun : Exception} {result : Except WalkError Reason}
    (discreet : (Start.forced stop argument).Discreet routines)
    (ran : forceFrames routines begun budget unwind = some (result, unwind')) :
    unwind'.exception.words = unwind.exception.words := by
  induction budget generalizing unwind with
  | zero => cases ran
  | succ budget ih =>
    rw [forceFrames_succ] at ran
    have hcalled : ∀ action, (after (askStop routines begun action)
        (after next unwind)).exception.words = unwind.exception.words :=
      fun action => discreet.2 begun.stop action begun.kind begun.target _ _ _
    rcases hcame : (FrameWalker.next unwind.walker).1 with error | _ | frame
    · rw [hcame] at ran
      cases ran
      rfl
    · rw [hcame] at ran
      cases ran
      exact hcalled .forceEnd
    rw [hcame] at ran
    dsimp only at ran
    have hstopped := hcalled .force
    generalize after (askStop routines begun .force) (after next unwind) = stopped
      at ran hstopped
    have hheard : (after (askPersonality routines frame .force) stopped).exception.words =
        unwind.exception.words :=
      (words_askPersonality stopped discreet.1 frame .force).trans hstopped
    generalize after (askPersonality routines frame .force) stopped = heard at ran hheard
    split at ran
    · split at ran
      · split at ran <;> cases ran <;> exact hheard
      · split at ran
        · split at ran
          · cases ran
            exact hheard
          · exact (ih ran).trans hheard
        · cases ran
          exact hheard
    · cases ran
      exact hstopped

theorem force_words {reason : Reason} (discreet : (Start.forced stop argument).Discreet routines)
    (ran : force routines budget unwind = some (reason, unwind')) :
    unwind'.exception.words = unwind.exception.words := by
  rw [force_eq] at ran
  have hbegun : (cleaning unwind).exception.words = unwind.exception.words := rfl
  rcases orFail_cases ran with hwalk | ⟨error, walked, hwalk, -, rfl⟩
  · exact (forceFrames_words discreet hwalk).trans hbegun
  · have hwalked : walked.exception.words = _ := forceFrames_words discreet hwalk
    exact hwalked.trans hbegun

theorem resume_words {start : Start} {reason : Reason} (discreet : start.Discreet routines)
    (h : start.Words unwind.exception)
    (ran : resume routines budget unwind = some (reason, unwind')) :
    start.Words unwind'.exception := by
  refine Start.words_congr ?_ h
  rw [resume_eq] at ran
  cases start with
  | raised handler =>
    rw [if_pos h.1] at ran
    obtain ⟨made, -, -, -, hkept⟩ := cleanup_recorded ran []
    exact hkept discreet
  | forced stop argument =>
    rw [if_neg (by rw [h.2.1]; exact h.1)] at ran
    exact force_words discreet ran

theorem raise_words {reason : Reason} (discreet : routines.Discreet)
    (ran : raise routines budget unwind = some (reason, unwind')) :
    Start.Words unwind'.exception (.raised unwind'.exception.target) := by
  obtain ⟨stored, made, -, -, -, -, hwords⟩ := raise_recorded ran []
  exact ⟨congrArg Prod.fst (hwords discreet), rfl⟩

theorem Started.words {exception : Exception} {start : Start} (h : Started exception start) :
    start.Words exception := by
  induction h with
  | raised discreet ran => exact raise_words discreet ran
  | forced exists_stop discreet ran =>
    rw [forced_eq] at ran
    exact Start.words_congr (force_words discreet ran) ⟨exists_stop, rfl, rfl⟩
  | resumed started discreet ran ih => exact resume_words discreet ih ran
  | resumedOrForced started discreet ran ih =>
    rw [resumeOrRethrow_eq, if_neg (by rw [ih.2.1]; exact ih.1)] at ran
    exact resume_words discreet ih ran
  | rethrown started discreet ran ih =>
    rw [resumeOrRethrow_eq, if_pos ih.1] at ran
    exact raise_words discreet ran

/-- How an unwind goes on with an exception that was last started so. -/
def GoesOn (routines : Routines ω) (budget : Nat) (unwind : Unwind W ω) : Start → Prop
  | .forced stop argument =>
    resume routines budget unwind = forced routines stop argument budget unwind ∧
      resumeOrRethrow routines budget unwind = forced routines stop argument budget unwind
  | .raised handler =>
    (∀ reason unwind', resume routines budget unwind = some (reason, unwind') →
      ∃ made, Cleaned unwind' handler reason made ∧
        resume routines.recording budget (unwind.recorded []) =
          some (reason, unwind'.recorded made)) ∧
      resumeOrRethrow routines budget unwind = raise routines budget unwind

theorem goesOn_of_started {start : Start} (h : Started unwind.exception start)
    (routines : Routines ω) (budget : Nat) : GoesOn routines budget unwind start := by
  have hwords := h.words
  cases start with
  | forced stop argument =>
    obtain ⟨exists_stop, hstop, hargument⟩ := hwords
    have hmarked : marked stop argument unwind = unwind := by
      rw [← hstop, ← hargument]
      rfl
    have hforced : resume routines budget unwind = forced routines stop argument budget unwind := by
      rw [resume_eq, if_neg (by rwa [hstop]), forced_eq, hmarked]
    refine ⟨hforced, ?_⟩
    rw [resumeOrRethrow_eq, if_neg (by rwa [hstop]), hforced]
  | raised handler =>
    obtain ⟨hstop, rfl⟩ := hwords
    refine ⟨fun reason unwind' ran => ?_, ?_⟩
    · rw [resume_eq, if_pos hstop] at ran
      obtain ⟨made, hcleaned, hrun, -⟩ := cleanup_recorded ran []
      refine ⟨made, hcleaned, ?_⟩
      rw [resume_eq, exception_recorded, if_pos hstop]
      exact hrun
    · rw [resumeOrRethrow_eq, if_pos hstop]

/-- The stop function clears its own word in the exception. Personalities land when
they are forced to clean up. -/
def forgetful : Routines Unit where
  personality _ action context state :=
    (if action = .force then .installContext else .continueUnwind, context, state)
  stop _ _ _ _ context state := (.noReason, context, { state.1 with stop := 0 }, state.2)

/-- A function without a personality and one that handles exceptions, with the same
stack pointer. -/
def namesakes : Chain := [⟨1, some .plain, false⟩, ⟨1, some .first, false⟩]

end Unwind

end Unwinding
