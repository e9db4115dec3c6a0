import Unwinding.Proofs.Protocol.Raise

/-!
# Every call of a raise accounted for

What a raise can call, and in which order, whatever its walker does: the walker
may fail at any call, come to other frames when it walks again, and give frames
any name. Each phase is a language of calls, and each way to end a phase is a
word of its own in it. What the answer of a raise says about the calls that were
made is then read off the calls.
-/

namespace Unwinding

/-- The calls of the first phase, with the frames it passes, the frame it stops at and
how it ends. -/
inductive Searching : List WalkFrame → Option WalkFrame →
    Except WalkError (Option Word) → List ProtocolCall → Prop where
  | ended : Searching [] none (.ok none) [.next (.ok none)]
  | failed (error : WalkError) : Searching [] none (.error error) [.next (.error error)]
  | found {frame : WalkFrame} {asked : List ProtocolCall}
    (asks : frame.Asked .search .handlerFound asked) :
    Searching [] (some frame) (.ok (some frame.id)) (.next (.ok (some frame)) :: asked)
  | refused {frame : WalkFrame} {reason : Reason} {asked : List ProtocolCall}
    (asks : frame.Asked .search reason asked)
    (fatal : reason ≠ .handlerFound ∧ reason ≠ .continueUnwind) :
    Searching [] (some frame) (.error (.personality 1 reason))
      (.next (.ok (some frame)) :: asked)
  | passed {frame : WalkFrame} {frames : List WalkFrame} {stop : Option WalkFrame}
    {result : Except WalkError (Option Word)} {asked calls : List ProtocolCall}
    (asks : frame.Asked .search .continueUnwind asked)
    (rest : Searching frames stop result calls) :
    Searching (frame :: frames) stop result (.next (.ok (some frame)) :: (asked ++ calls))

/-- The calls of the second phase towards `handler`, with the frames it leaves behind,
the frame it stops at and how it ends. -/
inductive CleaningUp (handler : Word) : List WalkFrame → Option WalkFrame →
    Except WalkError Reason → List ProtocolCall → Prop where
  | lost : CleaningUp handler [] none (.error (.handlerLost handler)) [.next (.ok none)]
  | failed (error : WalkError) : CleaningUp handler [] none (.error error) [.next (.error error)]
  | installed {frame : WalkFrame} {asked : List ProtocolCall}
    (asks : frame.Asked (frame.duty handler) .installContext asked) :
    CleaningUp handler [] (some frame) (.ok .installContext)
      (.next (.ok (some frame)) :: (asked ++ [.install (.ok ())]))
  | notInstalled {frame : WalkFrame} {asked : List ProtocolCall} (error : WalkError)
    (asks : frame.Asked (frame.duty handler) .installContext asked) :
    CleaningUp handler [] (some frame) (.error error)
      (.next (.ok (some frame)) :: (asked ++ [.install (.error error)]))
  | refused {frame : WalkFrame} {reason : Reason} {asked : List ProtocolCall}
    (asks : frame.Asked (frame.duty handler) reason asked)
    (fatal : reason ≠ .installContext ∧ ¬(reason = .continueUnwind ∧ frame.id ≠ handler)) :
    CleaningUp handler [] (some frame) (.error (.personality 2 reason))
      (.next (.ok (some frame)) :: asked)
  | notLeft {frame : WalkFrame} {asked : List ProtocolCall} (error : WalkError)
    (other : frame.id ≠ handler) (asks : frame.Asked .cleanup .continueUnwind asked) :
    CleaningUp handler [] (some frame) (.error error)
      (.next (.ok (some frame)) :: (asked ++ [.unwoundPast (.error error)]))
  | left {frame : WalkFrame} {frames : List WalkFrame} {stop : Option WalkFrame}
    {result : Except WalkError Reason} {asked calls : List ProtocolCall}
    (other : frame.id ≠ handler) (asks : frame.Asked .cleanup .continueUnwind asked)
    (rest : CleaningUp handler frames stop result calls) :
    CleaningUp handler (frame :: frames) stop result
      (.next (.ok (some frame)) :: (asked ++ .unwoundPast (.ok ()) :: calls))

theorem Searching.stop_of_found {passed : List WalkFrame} {stop : Option WalkFrame}
    {handler : Word} {made : List ProtocolCall}
    (h : Searching passed stop (.ok (some handler)) made) :
    ∃ frame, stop = some frame ∧ frame.id = handler := by
  generalize hresult : (Except.ok (some handler) : Except WalkError (Option Word)) = result at h
  induction h with
  | found asks =>
    cases hresult
    exact ⟨_, rfl, rfl⟩
  | passed asks rest ih => exact ih hresult
  | _ => cases hresult

theorem WalkFrame.duty_of_other {frame : WalkFrame} {handler : Word}
    (other : frame.id ≠ handler) : frame.duty handler = .cleanup := if_neg other

theorem CleaningUp.other_of_left {handler : Word} {left : List WalkFrame}
    {stop : Option WalkFrame} {result : Except WalkError Reason} {made : List ProtocolCall}
    (h : CleaningUp handler left stop result made) : ∀ frame ∈ left, frame.id ≠ handler := by
  induction h with
  | left other asks rest ih => exact List.forall_mem_cons.mpr ⟨other, ih⟩
  | _ => exact nofun

theorem CleaningUp.stop_of_ok {handler : Word} {left : List WalkFrame} {stop : Option WalkFrame}
    {reason : Reason} {made : List ProtocolCall}
    (h : CleaningUp handler left stop (.ok reason) made) :
    reason = .installContext ∧ ∃ frame, stop = some frame := by
  generalize hresult : (Except.ok reason : Except WalkError Reason) = result at h
  induction h with
  | installed asks =>
    cases hresult
    exact ⟨rfl, _, rfl⟩
  | left other asks rest ih => exact ih hresult
  | _ => cases hresult

namespace Unwind

/-- What the second phase towards `handler` has called when it answers and leaves
`unwind`. -/
inductive Cleaned {W ω : Type} (unwind : Unwind W ω) (handler : Word) :
    Reason → List ProtocolCall → Prop where
  | installContext {left : List WalkFrame} {frame : WalkFrame} {made : List ProtocolCall}
    (calls : CleaningUp handler left (some frame) (.ok .installContext) made)
    (phase : unwind.phase = if frame.id = handler then .complete else .cleaningUp) :
    Cleaned unwind handler .installContext (.rewind :: made)
  | fatalPhase2Error {left : List WalkFrame} {stop : Option WalkFrame} {error : WalkError}
    {made : List ProtocolCall} (calls : CleaningUp handler left stop (.error error) made)
    (phase : unwind.phase = .fatalError) (failure : unwind.failure = error.failure) :
    Cleaned unwind handler .fatalPhase2Error (.rewind :: made)

/-- What a raise has called when it answers and leaves `unwind`. It stores a handler in
the exception before the second phase, and zero before the first. -/
inductive Raised {W ω : Type} (unwind : Unwind W ω) :
    (stored : Word) → Reason → List ProtocolCall → Prop where
  | endOfStack {passed : List WalkFrame} {stop : Option WalkFrame} {made : List ProtocolCall}
    (calls : Searching passed stop (.ok none) made) (phase : unwind.phase = .noHandler) :
    Raised unwind 0 .endOfStack (.rewind :: made)
  | fatalPhase1Error {passed : List WalkFrame} {stop : Option WalkFrame} {error : WalkError}
    {made : List ProtocolCall} (calls : Searching passed stop (.error error) made)
    (phase : unwind.phase = .fatalError) (failure : unwind.failure = error.failure) :
    Raised unwind 0 .fatalPhase1Error (.rewind :: made)
  | secondPhase {passed : List WalkFrame} {stop : Option WalkFrame} {handler : Word}
    {made made' : List ProtocolCall} {reason : Reason}
    (calls : Searching passed stop (.ok (some handler)) made)
    (cleaned : Cleaned unwind handler reason made') :
    Raised unwind handler reason (.rewind :: (made ++ made'))

theorem Cleaned.cleaningUp {W ω : Type} {unwind : Unwind W ω} {handler : Word} {reason : Reason}
    {calls : List ProtocolCall} (h : Cleaned unwind handler reason calls) :
    ∃ left stop result made, calls = .rewind :: made ∧
      CleaningUp handler left stop result made := by
  cases h with
  | installContext calls phase => exact ⟨_, _, _, _, rfl, calls⟩
  | fatalPhase2Error calls phase failure => exact ⟨_, _, _, _, rfl, calls⟩

theorem Raised.second_phase {W ω : Type} {unwind : Unwind W ω} {stored : Word} {reason : Reason}
    {calls : List ProtocolCall} (h : Raised unwind stored reason calls)
    (found : reason ≠ .endOfStack ∧ reason ≠ .fatalPhase1Error) :
    ∃ passed stop made cleaned, calls = (.rewind :: made) ++ cleaned ∧
      Searching passed stop (.ok (some stored)) made ∧ Cleaned unwind stored reason cleaned := by
  cases h with
  | endOfStack => exact absurd rfl found.1
  | fatalPhase1Error => exact absurd rfl found.2
  | secondPhase calls cleaned => exact ⟨_, _, _, _, rfl, calls, cleaned⟩

variable {W ω : Type} [FrameWalker W] {routines : Routines ω} {unwind unwind' : Unwind W ω}
  {budget : Nat}

theorem searchFrames_recorded {result : Except WalkError (Option Word)}
    (ran : searchFrames routines budget unwind = some (result, unwind'))
    (calls : List ProtocolCall) :
    ∃ frames stop made, Searching frames stop result made ∧
      searchFrames routines.recording budget (unwind.recorded calls) =
        some (result, unwind'.recorded (calls ++ made)) ∧
      Leads unwind.walker made unwind'.walker ∧
      (routines.Discreet → unwind'.exception.words = unwind.exception.words) := by
  induction budget generalizing unwind calls with
  | zero => cases ran
  | succ budget ih =>
    rw [searchFrames_succ] at ran ⊢
    rw [next_answer_recorded, after_next_recorded]
    rcases hcame : (FrameWalker.next unwind.walker).1 with error | _ | frame
    · rw [hcame] at ran
      cases ran
      exact ⟨[], none, _, .failed error, rfl, .single (.next hcame), fun _ => rfl⟩
    · rw [hcame] at ran
      cases ran
      exact ⟨[], none, _, .ended, rfl, .single (.next hcame), fun _ => rfl⟩
    rw [hcame] at ran
    obtain ⟨asked, asks, hheard, hleads⟩ := heard_recorded routines unwind calls .search hcame
    have hwords : routines.Discreet → (heard routines unwind frame .search).exception.words =
      unwind.exception.words := fun discreet => words_heard unwind discreet frame .search
    dsimp only at ran ⊢
    rw [hheard, reply_recorded]
    by_cases hfound : reply routines (after next unwind) frame .search = .handlerFound
    · rw [if_pos hfound] at ran ⊢
      cases ran
      exact ⟨[], some frame, _, .found (hfound ▸ asks), rfl, hleads, hwords⟩
    rw [if_neg hfound] at ran ⊢
    by_cases hcontinue : reply routines (after next unwind) frame .search = .continueUnwind
    · rw [if_pos hcontinue] at ran ⊢
      obtain ⟨frames, stop, made, hsearching, hrun, hrest, hkept⟩ :=
        ih ran (calls ++ .next (.ok (some frame)) :: asked)
      refine ⟨frame :: frames, stop, _, .passed (hcontinue ▸ asks) hsearching, ?_,
        hleads.append hrest, fun discreet => (hkept discreet).trans (hwords discreet)⟩
      rw [hrun, List.append_assoc, List.cons_append]
    · rw [if_neg hcontinue] at ran ⊢
      cases ran
      exact ⟨[], some frame, _, .refused asks ⟨hfound, hcontinue⟩, rfl, hleads, hwords⟩

theorem cleanupFrames_recorded {handler : Word} {result : Except WalkError Reason}
    (ran : cleanupFrames routines handler budget unwind = some (result, unwind'))
    (calls : List ProtocolCall) :
    ∃ frames stop made, CleaningUp handler frames stop result made ∧
      cleanupFrames routines.recording handler budget (unwind.recorded calls) =
        some (result, unwind'.recorded (calls ++ made)) ∧
      Leads unwind.walker made unwind'.walker ∧
      (routines.Discreet → unwind'.exception.words = unwind.exception.words) ∧
      ∀ frame reason, stop = some frame → result = .ok reason →
        unwind'.phase = if frame.id = handler then .complete else unwind.phase := by
  induction budget generalizing unwind calls with
  | zero => cases ran
  | succ budget ih =>
    rw [cleanupFrames_succ] at ran ⊢
    rw [next_answer_recorded, after_next_recorded]
    rcases hcame : (FrameWalker.next unwind.walker).1 with error | _ | frame
    · rw [hcame] at ran
      cases ran
      exact ⟨[], none, _, .failed error, rfl, .single (.next hcame), fun _ => rfl, nofun⟩
    · rw [hcame] at ran
      cases ran
      exact ⟨[], none, _, .lost, rfl, .single (.next hcame), fun _ => rfl, nofun⟩
    rw [hcame] at ran
    obtain ⟨asked, asks, hheard, hleads⟩ :=
      heard_recorded routines unwind calls (frame.duty handler) hcame
    have hphase := phase_heard routines unwind frame (frame.duty handler)
    have hwords : routines.Discreet →
        (heard routines unwind frame (frame.duty handler)).exception.words =
          unwind.exception.words :=
      fun discreet => words_heard unwind discreet frame (frame.duty handler)
    dsimp only at ran ⊢
    rw [hheard, reply_recorded]
    generalize heard routines unwind frame (frame.duty handler) = heard
      at ran hphase hwords hleads
    by_cases hinstall : reply routines (after next unwind) frame (frame.duty handler) =
      .installContext
    · rw [if_pos hinstall] at ran ⊢
      rw [hinstall] at asks
      rw [install_answer_recorded, after_install_recorded]
      cases hinstalled : (FrameWalker.install heard.walker).1 with
      | error error =>
        rw [hinstalled] at ran
        cases ran
        exact ⟨[], some frame, _, .notInstalled error asks, by simp,
          hleads.append (.single (.install hinstalled)), hwords, nofun⟩
      | ok =>
        rw [hinstalled] at ran
        cases ran
        refine ⟨[], some frame, _, .installed asks, ?_, ?_, ?_, ?_⟩
        · rw [List.append_assoc, List.cons_append]
          dsimp only
          split <;> rfl
        · split <;> exact hleads.append (.single (.install hinstalled))
        · split <;> exact hwords
        · rintro _ _ ⟨rfl⟩ -
          rw [← hphase]
          split <;> rfl
    rw [if_neg hinstall] at ran ⊢
    by_cases hleave : reply routines (after next unwind) frame (frame.duty handler) =
      .continueUnwind ∧ frame.id ≠ handler
    · rw [if_pos hleave] at ran ⊢
      rw [hleave.1, WalkFrame.duty_of_other hleave.2] at asks
      rw [unwoundPast_answer_recorded, after_unwoundPast_recorded]
      cases hleft : (FrameWalker.unwoundPast heard.walker).1 with
      | error error =>
        rw [hleft] at ran
        cases ran
        exact ⟨[], some frame, _, .notLeft error hleave.2 asks, by simp,
          hleads.append (.single (.unwoundPast hleft)), hwords, nofun⟩
      | ok =>
        rw [hleft] at ran
        obtain ⟨frames, stop, made, hcleaning, hrun, hrest, hkept, hended⟩ := ih ran
          (calls ++ .next (.ok (some frame)) :: asked ++ [.unwoundPast (.ok ())])
        refine ⟨frame :: frames, stop, _, .left hleave.2 asks hcleaning, ?_,
          hleads.append (.cons (.unwoundPast hleft) hrest),
          fun discreet => (hkept discreet).trans (hwords discreet), ?_⟩
        · simpa using hrun
        · intro last reason hstop hok
          rw [hended last reason hstop hok, ← hphase]
          rfl
    · rw [if_neg hleave] at ran ⊢
      cases ran
      exact ⟨[], some frame, _, .refused asks ⟨hinstall, hleave⟩, rfl, hleads, hwords, nofun⟩

theorem cleanup_recorded {reason : Reason}
    (ran : cleanup routines budget unwind = some (reason, unwind')) (calls : List ProtocolCall) :
    ∃ made, Cleaned unwind' unwind.exception.target reason made ∧
      cleanup routines.recording budget (unwind.recorded calls) =
        some (reason, unwind'.recorded (calls ++ made)) ∧
      Leads unwind.walker made unwind'.walker ∧
      (routines.Discreet → unwind'.exception.words = unwind.exception.words) := by
  rw [cleanup_eq] at ran ⊢
  have hphase : (cleaning unwind).phase = .cleaningUp := rfl
  have hwords : (cleaning unwind).exception.words = unwind.exception.words := rfl
  have hrewound : Moves unwind.walker .rewind (cleaning unwind).walker := .rewind unwind.walker
  rw [cleaning_recorded, exception_recorded]
  generalize cleaning unwind = begun at ran hphase hwords hrewound
  rcases orFail_cases ran with hwalk | ⟨error, walked, hwalk, rfl, rfl⟩
  · obtain ⟨left, stop, made, hcleaning, hrun, hrest, hkept, hended⟩ :=
      cleanupFrames_recorded hwalk (calls ++ [.rewind])
    obtain ⟨rfl, frame, rfl⟩ := hcleaning.stop_of_ok
    refine ⟨.rewind :: made, .installContext hcleaning ?_, ?_, .cons hrewound hrest,
      fun discreet => (hkept discreet).trans hwords⟩
    · rw [hended frame _ rfl rfl, hphase]
    · rw [orFail_ok hrun, List.append_assoc]
      rfl
  · obtain ⟨left, stop, made, hcleaning, hrun, hrest, hkept, -⟩ :=
      cleanupFrames_recorded hwalk (calls ++ [.rewind])
    refine ⟨.rewind :: made, .fatalPhase2Error hcleaning rfl rfl, ?_, .cons hrewound hrest,
      fun discreet => (hkept discreet).trans hwords⟩
    rw [orFail_error hrun, List.append_assoc]
    rfl

theorem raise_recorded {reason : Reason}
    (ran : raise routines budget unwind = some (reason, unwind')) (calls : List ProtocolCall) :
    ∃ stored made, Raised unwind' stored reason made ∧
      raise routines.recording budget (unwind.recorded calls) =
        some (reason, unwind'.recorded (calls ++ made)) ∧
      Leads unwind.walker made unwind'.walker ∧
      (reason ≠ .endOfStack ∧ reason ≠ .fatalPhase1Error →
        ∃ begun, begun.exception.target = stored ∧
          cleanup routines budget begun = some (reason, unwind')) ∧
      (routines.Discreet → unwind'.exception.words = (0, stored)) := by
  rw [raise_eq] at ran ⊢
  have hwords : (searching unwind).exception.words = (0, 0) := rfl
  have hrewound : Moves unwind.walker .rewind (searching unwind).walker := .rewind unwind.walker
  rw [searching_recorded]
  generalize searching unwind = begun at ran hwords hrewound
  cases hwalk : searchFrames routines budget begun with
  | none =>
    rw [hwalk] at ran
    cases ran
  | some pair =>
    obtain ⟨result, walked⟩ := pair
    obtain ⟨passed, stop, made, hsearching, hrun, hleads, hkept⟩ :=
      searchFrames_recorded hwalk (calls ++ [.rewind])
    have hsearched : routines.Discreet → walked.exception.words = (0, 0) :=
      fun discreet => (hkept discreet).trans hwords
    rw [hwalk] at ran
    rw [hrun, List.append_assoc]
    rcases result with error | _ | handler
    · cases ran
      exact ⟨0, .rewind :: made, .fatalPhase1Error hsearching rfl rfl, rfl,
        .cons hrewound hleads, fun found => absurd rfl found.2, hsearched⟩
    · cases ran
      exact ⟨0, .rewind :: made, .endOfStack hsearching rfl, rfl, .cons hrewound hleads,
        fun found => absurd rfl found.1, hsearched⟩
    · obtain ⟨made', hcleaned, hrun', hrest, hkept'⟩ :=
        cleanup_recorded ran (calls ++ .rewind :: made)
      refine ⟨handler, .rewind :: (made ++ made'), .secondPhase hsearching hcleaned, ?_,
        .cons hrewound (hleads.append hrest), fun _ => ⟨chosen handler walked, rfl, ran⟩,
        fun discreet => (hkept' discreet).trans ?_⟩
      · have hcalls : calls ++ .rewind :: (made ++ made') = calls ++ .rewind :: made ++ made' := by
          simp
        rw [hcalls]
        exact hrun'
      · have hstop : walked.exception.stop = 0 := congrArg Prod.fst (hsearched discreet)
        exact congrArg (·, handler) hstop

end Unwind

/-! ## What the calls say -/

namespace ProtocolCall

/-- The error that a walker answers with. -/
def error? : ProtocolCall → Option WalkError
  | next (.error error) | unwoundPast (.error error) | install (.error error) => some error
  | _ => none

/-- The frame that a walker comes to. -/
def frame? : ProtocolCall → Option WalkFrame
  | next (.ok frame) => frame
  | _ => none

def installs : ProtocolCall → Bool
  | install _ => true
  | _ => false

/-- The call may change the stack. -/
def touches : ProtocolCall → Bool
  | unwoundPast _ | install _ => true
  | _ => false

end ProtocolCall

open ProtocolCall

theorem WalkError.isSome_failure (error : WalkError) :
    error.failure.isSome ↔ (∃ cause, error = .step cause) ∨ ∃ cause, error = .register cause := by
  cases error <;> simp [WalkError.failure]

theorem WalkFrame.Asked.personality {frame : WalkFrame} {action : Action} {answer : Reason}
    {asked : List ProtocolCall} (asks : frame.Asked action answer asked) {call : ProtocolCall}
    (hcall : call ∈ asked) : ∃ address, call = .personality address action answer := by
  cases asks with
  | absent nobody => cases hcall
  | called somebody =>
    cases List.mem_singleton.mp hcall
    exact ⟨_, rfl⟩

theorem WalkFrame.Asked.untouched {frame : WalkFrame} {action : Action} {answer : Reason}
    {asked : List ProtocolCall} (asks : frame.Asked action answer asked) :
    ∀ call ∈ asked, call.touches = false := by
  intro call hcall
  obtain ⟨address, rfl⟩ := asks.personality hcall
  rfl

@[simp] theorem WalkFrame.Asked.frames {frame : WalkFrame} {action : Action} {answer : Reason}
    {asked : List ProtocolCall} (asks : frame.Asked action answer asked) :
    asked.filterMap frame? = [] := by
  cases asks <;> rfl

/-- A frame that was asked, or come to, did not answer with an error of its walker. -/
theorem WalkFrame.Asked.last {frame : WalkFrame} {action : Action} {answer : Reason}
    {asked : List ProtocolCall} (asks : frame.Asked action answer asked) :
    ∃ before last, .next (.ok (some frame)) :: asked = before ++ [last] ∧
      last.error? = none := by
  cases asks with
  | absent nobody => exact ⟨[], _, rfl, rfl⟩
  | called somebody => exact ⟨[_], _, rfl, rfl⟩

namespace Searching

variable {passed : List WalkFrame} {stop : Option WalkFrame}
  {result : Except WalkError (Option Word)} {made : List ProtocolCall}

theorem untouched (h : Searching passed stop result made) :
    ∀ call ∈ made, call.touches = false := by
  induction h with
  | ended | failed => simp [touches]
  | found asks | refused asks => simpa [touches] using asks.untouched
  | passed asks rest ih =>
    simp only [List.mem_cons, List.mem_append, forall_eq_or_imp]
    exact ⟨rfl, fun call hcall => hcall.elim (asks.untouched call) (ih call)⟩

theorem last_of_error (h : Searching passed stop result made) {error : WalkError}
    (failed : result = .error error) :
    ∃ before last, made = before ++ [last] ∧
      error.failure = last.error?.bind WalkError.failure := by
  induction h with
  | ended | found asks => cases failed
  | failed error' =>
    cases failed
    exact ⟨[], _, rfl, rfl⟩
  | refused asks fatal =>
    cases failed
    obtain ⟨before, last, hlast, hnone⟩ := asks.last
    exact ⟨before, last, hlast, by rw [hnone]; rfl⟩
  | @passed frame _ _ _ asked _ asks rest ih =>
    obtain ⟨before, last, rfl, hfailure⟩ := ih failed
    exact ⟨.next (.ok (some frame)) :: (asked ++ before), last, by simp, hfailure⟩

end Searching

namespace CleaningUp

variable {handler : Word} {left : List WalkFrame} {stop : Option WalkFrame}
  {result : Except WalkError Reason} {made : List ProtocolCall}

theorem frames (h : CleaningUp handler left stop result made) :
    made.filterMap frame? = left ++ stop.toList := by
  induction h with
  | lost | failed => rfl
  | installed asks | notInstalled error asks | refused asks | notLeft error other asks =>
    simp [frame?, asks.frames]
  | left other asks rest ih => simp [List.filterMap_cons, frame?, asks.frames, ih]

theorem last_of_error (h : CleaningUp handler left stop result made) {error : WalkError}
    (failed : result = .error error) :
    ∃ before last, made = before ++ [last] ∧
      error.failure = last.error?.bind WalkError.failure := by
  induction h with
  | lost | failed =>
    cases failed
    exact ⟨[], _, rfl, rfl⟩
  | installed asks => cases failed
  | notInstalled error' asks =>
    cases failed
    exact ⟨.next (.ok (some _)) :: _, _, rfl, rfl⟩
  | refused asks fatal =>
    cases failed
    obtain ⟨before, last, hlast, hnone⟩ := asks.last
    exact ⟨before, last, hlast, by rw [hnone]; rfl⟩
  | notLeft error' other asks =>
    cases failed
    exact ⟨.next (.ok (some _)) :: _, _, rfl, rfl⟩
  | @left frame _ _ _ asked _ other asks rest ih =>
    obtain ⟨before, last, rfl, hfailure⟩ := ih failed
    exact ⟨.next (.ok (some frame)) :: (asked ++ .unwoundPast (.ok ()) :: before), last, by simp,
      hfailure⟩

theorem not_installed (h : CleaningUp handler left stop result made) {error : WalkError}
    (failed : result = .error error) : .install (.ok ()) ∉ made := by
  have hasked : ∀ {frame : WalkFrame} {action : Action} {answer : Reason}
      {asked : List ProtocolCall}, frame.Asked action answer asked →
      .install (.ok ()) ∉ asked :=
    fun asks hmem => by cases asks.untouched _ hmem
  induction h with
  | lost | failed => simp
  | installed asks => cases failed
  | notInstalled error' asks | notLeft error' other asks | refused asks => simp [hasked asks]
  | left other asks rest ih => simp [hasked asks, ih failed]

/-- A second phase that ends well ends with the one installation. -/
theorem installed_last (h : CleaningUp handler left stop result made) {reason : Reason}
    (succeeded : result = .ok reason) :
    ∃ before, made = before ++ [.install (.ok ())] ∧ ∀ call ∈ before, call.installs = false := by
  have hasked : ∀ {frame : WalkFrame} {action : Action} {answer : Reason}
      {asked : List ProtocolCall}, frame.Asked action answer asked →
      ∀ call ∈ asked, call.installs = false := by
    intro frame action answer asked asks call hcall
    obtain ⟨address, rfl⟩ := asks.personality hcall
    rfl
  induction h with
  | lost | failed | notInstalled | refused | notLeft => cases succeeded
  | installed asks =>
    exact ⟨.next (.ok (some _)) :: _, rfl, by simpa [installs] using hasked asks⟩
  | @left frame _ _ _ asked _ other asks rest ih =>
    obtain ⟨before, rfl, hbefore⟩ := ih succeeded
    refine ⟨.next (.ok (some frame)) :: (asked ++ .unwoundPast (.ok ()) :: before), by simp, ?_⟩
    simp only [List.mem_cons, List.mem_append]
    rintro call (rfl | hcall | rfl | hcall)
    · rfl
    · exact hasked asks call hcall
    · rfl
    · exact hbefore call hcall

end CleaningUp

namespace Unwind

variable {W ω : Type} {unwind : Unwind W ω} {stored : Word} {reason : Reason}
  {calls : List ProtocolCall}

/-- What the answer of a raise that stored this handler says about the calls that it made
and the unwind that it leaves. -/
structure Accounted (unwind : Unwind W ω) (stored : Word) (reason : Reason)
    (calls : List ProtocolCall) : Prop where
  answers : reason ∈
    [Reason.endOfStack, .fatalPhase1Error, .installContext, .fatalPhase2Error]
  endOfStack : reason = .endOfStack →
    unwind.phase = .noHandler ∧ ∀ call ∈ calls, call.touches = false
  fatalPhase1Error : reason = .fatalPhase1Error →
    unwind.phase = .fatalError ∧ ∀ call ∈ calls, call.touches = false
  /-- There was one installation, nothing came after it, and it succeeded. -/
  installed : reason = .installContext ↔
    calls.countP installs = 1 ∧ calls.getLast? = some (.install (.ok ()))
  /-- The frame that is resumed in is the last that the walker came to. -/
  installContext : reason = .installContext →
    ∃ frame, (calls.filterMap frame?).getLast? = some frame ∧
      unwind.phase = if frame.id = stored then .complete else .cleaningUp
  fatalPhase2Error : reason = .fatalPhase2Error →
    unwind.phase = .fatalError ∧ .install (.ok ()) ∉ calls
  /-- The error is what the last call was answered with, if it comes from the walker. -/
  failure : reason = .fatalPhase1Error ∨ reason = .fatalPhase2Error →
    (unwind.failure.isSome ↔ ∃ error, calls.getLast?.bind error? = some error ∧
      ((∃ cause, error = .step cause) ∨ ∃ cause, error = .register cause))

theorem not_installs_of_untouched {call : ProtocolCall} (h : call.touches = false) :
    call.installs = false := by
  cases call <;> first | rfl | cases h

theorem not_installed_of_untouched (h : ∀ call ∈ calls, call.touches = false) :
    .install (.ok ()) ∉ calls :=
  fun hmem => by cases h _ hmem

theorem installed_of_not_mem (h : .install (.ok ()) ∉ calls) (other : reason ≠ .installContext) :
    reason = .installContext ↔
      calls.countP installs = 1 ∧ calls.getLast? = some (.install (.ok ())) :=
  ⟨fun heq => absurd heq other, fun hlast => absurd (List.mem_of_getLast? hlast.2) h⟩

theorem isSome_failure_iff {before : List ProtocolCall} {last : ProtocolCall} {error : WalkError}
    (h : error.failure = last.error?.bind WalkError.failure) :
    error.failure.isSome ↔ ∃ error', (before ++ [last]).getLast?.bind error? = some error' ∧
      ((∃ cause, error' = .step cause) ∨ ∃ cause, error' = .register cause) := by
  rw [List.getLast?_concat, Option.bind_some, h]
  cases last.error? with
  | none => simp
  | some error' => simp [WalkError.isSome_failure]

theorem Raised.accounted (h : Raised unwind stored reason calls) :
    Accounted unwind stored reason calls := by
  cases h with
  | @endOfStack passed stop made search phase =>
    have huntouched : ∀ call ∈ .rewind :: made, call.touches = false :=
      List.forall_mem_cons.mpr ⟨rfl, search.untouched⟩
    exact {
      answers := by decide
      endOfStack := fun _ => ⟨phase, huntouched⟩
      fatalPhase1Error := nofun
      installed := installed_of_not_mem (not_installed_of_untouched huntouched) nofun
      installContext := nofun
      fatalPhase2Error := nofun
      failure := nofun }
  | @fatalPhase1Error passed stop error made search phase failure =>
    have huntouched : ∀ call ∈ .rewind :: made, call.touches = false :=
      List.forall_mem_cons.mpr ⟨rfl, search.untouched⟩
    obtain ⟨before, last, rfl, hlast⟩ := search.last_of_error rfl
    exact {
      answers := by decide
      endOfStack := nofun
      fatalPhase1Error := fun _ => ⟨phase, huntouched⟩
      installed := installed_of_not_mem (not_installed_of_untouched huntouched) nofun
      installContext := nofun
      fatalPhase2Error := nofun
      failure := fun _ => by
        rw [failure, ← List.cons_append]
        exact isSome_failure_iff hlast }
  | @secondPhase passed stop handler made _ _ search cleaned =>
    have huntouched := search.untouched
    cases cleaned with
    | @installContext left frame made' calls phase =>
      have hframes := calls.frames
      obtain ⟨before, rfl, hbefore⟩ := calls.installed_last rfl
      exact {
        answers := by decide
        endOfStack := nofun
        fatalPhase1Error := nofun
        installed := by
          have hsearch : made.countP installs = 0 := List.countP_eq_zero.mpr fun call hcall => by
            simp [not_installs_of_untouched (huntouched call hcall)]
          have hcleanup : before.countP installs = 0 := List.countP_eq_zero.mpr fun call hcall => by
            simp [hbefore call hcall]
          have hcount : (ProtocolCall.rewind :: (made ++ .rewind ::
              (before ++ [.install (.ok ())]))).countP installs = 1 := by
            simp [List.countP_cons, List.countP_append, hsearch, hcleanup, installs]
          exact iff_of_true rfl ⟨hcount, by simp [List.getLast?_cons]⟩
        installContext := fun _ => ⟨frame, by
          rw [List.filterMap_cons, List.filterMap_append, List.filterMap_cons]
          simp [frame?, hframes], phase⟩
        fatalPhase2Error := nofun
        failure := nofun }
    | @fatalPhase2Error left stop' error made' calls phase failure =>
      have hnot : .install (.ok ()) ∉ .rewind :: (made ++ .rewind :: made') := by
        simp [not_installed_of_untouched huntouched, calls.not_installed rfl]
      obtain ⟨before, last, rfl, hlast⟩ := calls.last_of_error rfl
      exact {
        answers := by decide
        endOfStack := nofun
        fatalPhase1Error := nofun
        installed := installed_of_not_mem hnot nofun
        installContext := nofun
        fatalPhase2Error := fun _ => ⟨phase, hnot⟩
        failure := fun _ => by
          have hcalls : .rewind :: (made ++ .rewind :: (before ++ [last])) =
              .rewind :: (made ++ .rewind :: before) ++ [last] := by simp
          rw [failure, hcalls]
          exact isSome_failure_iff hlast }

variable [FrameWalker W] {routines : Routines ω} {unwind' : Unwind W ω} {budget : Nat}

/-- A walker that comes to other frames each time it goes back, and fails behind them. -/
structure Fickle where
  walks : List (List WalkFrame)
  ahead : List WalkFrame

instance : FrameWalker Fickle where
  rewind walker := ⟨walker.walks.tail, walker.walks.headD []⟩
  next walker :=
    match walker.ahead with
    | [] => (.error (.step .unresolvableCfa), walker)
    | frame :: ahead => (.ok (some frame), { walker with ahead })
  context _ := Context.blank
  setContext walker _ := walker
  unwoundPast walker := (.ok (), walker)
  install walker := (.ok (), walker)

/-- Its only handler is gone when the second phase comes. -/
def fickle : Unwind Fickle Unit :=
  start ⟨[[⟨16, none⟩, ⟨32, FrameKind.first.personality⟩], [⟨16, none⟩, ⟨48, none⟩]], []⟩
    ⟨0x71000000, 0, 0, 0⟩ ()

end Unwind

end Unwinding
