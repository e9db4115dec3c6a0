import Unwinding.Proofs.Protocol.Replay

/-!
# Raising an exception over a walk that can be repeated

For a walker that comes to the same frames after each rewind, the whole course
of a raise can be read off the list of frames and the answers of their
personalities. The course below is written in terms of the list alone: it knows
no walker, no budget and no state, and finds the handler by its place and not
by its name. That names are enough to find it again is what the frames'
distinct names are needed for. A raise takes this course if it ends as the course
says and leaves, with a walker and routines that remember the calls to them, a
record of just the calls of the course.
-/

namespace Unwinding

/-- The calls of an operation and what comes of it. -/
structure Course where
  calls : List ProtocolCall
  reason : Reason
  phase : Phase
  /-- The handler frame that the exception remembers, zero if there is none. -/
  target : Word

namespace Course

variable (answer : WalkFrame → Action → Reason)

/-- The frame lets the walk go on. -/
def continues (action : Action) (frame : WalkFrame) : Bool :=
  frame.reply answer action == .continueUnwind

/-- The walk comes to a frame and asks it. One without a personality is not asked. -/
def asks (action : Action) (frame : WalkFrame) : List ProtocolCall :=
  .next (.ok (some frame)) ::
    match frame.personality with
    | none => []
    | some address => [.personality address action (answer frame action)]

/-- The frames are asked whether they handle the exception. -/
def searches (frames : List WalkFrame) : List ProtocolCall :=
  frames.flatMap (asks answer .search)

/-- The frames clean up and are left behind. -/
def leaves (frames : List WalkFrame) : List ProtocolCall :=
  frames.flatMap fun frame => asks answer .cleanup frame ++ [.unwoundPast (.ok ())]

/-- The second phase ends at `frame`, which is asked for `action`. The phase that
is entered when the frame is installed is for the caller to say. -/
def settle (frame : WalkFrame) (action : Action) (before : List ProtocolCall) (phase : Phase)
    (target : Word) : Course :=
  match frame.reply answer action with
  | .installContext =>
    ⟨before ++ asks answer action frame ++ [.install (.ok ())], .installContext, phase, target⟩
  | _ => ⟨before ++ asks answer action frame, .fatalPhase2Error, .fatalError, target⟩

/-- The second phase, with the frames before the handler. -/
def cleanup (before : List WalkFrame) (handler : WalkFrame) : Course :=
  let left := .rewind :: leaves answer (before.takeWhile (continues answer .cleanup))
  match before.find? (!continues answer .cleanup ·) with
  | some frame => settle answer frame .cleanup left .cleaningUp handler.id
  | none => settle answer handler .handle left .complete handler.id

/-- A raise over `frames`. The first frame that does not continue decides
whether there is a second phase. -/
def raise (frames : List WalkFrame) : Course :=
  let before := frames.takeWhile (continues answer .search)
  let searched := .rewind :: searches answer before
  match frames.find? (!continues answer .search ·) with
  | none => ⟨searched ++ [.next (.ok none)], .endOfStack, .noHandler, 0⟩
  | some frame =>
    match frame.reply answer .search with
    | .handlerFound =>
      let second := cleanup answer before frame
      { second with calls := searched ++ asks answer .search frame ++ second.calls }
    | _ => ⟨searched ++ asks answer .search frame, .fatalPhase1Error, .fatalError, 0⟩

variable {answer}

theorem target_cleanup (before : List WalkFrame) (handler : WalkFrame) :
    (cleanup answer before handler).target = handler.id := by
  have hsettle : ∀ frame action calls phase,
      (settle answer frame action calls phase handler.id).target = handler.id := by
    intro frame action calls phase
    unfold settle
    split <;> rfl
  unfold cleanup
  split <;> exact hsettle ..

theorem settle_refused {frame : WalkFrame} {action : Action}
    (h : frame.reply answer action ≠ .installContext) (before : List ProtocolCall) (phase : Phase)
    (target : Word) : settle answer frame action before phase target =
      ⟨before ++ asks answer action frame, .fatalPhase2Error, .fatalError, target⟩ := by
  unfold settle
  split
  · contradiction
  · rfl

theorem raise_refused {frames : List WalkFrame} {frame : WalkFrame}
    (hfind : frames.find? (!continues answer .search ·) = some frame)
    (h : frame.reply answer .search ≠ .handlerFound) : raise answer frames =
      ⟨.rewind :: searches answer (frames.takeWhile (continues answer .search)) ++
        asks answer .search frame, .fatalPhase1Error, .fatalError, 0⟩ := by
  simp only [raise, hfind]

theorem asks_of_asked {frame : WalkFrame} {action : Action} {asked : List ProtocolCall}
    (h : frame.Asked action (frame.reply answer action) asked) :
    .next (.ok (some frame)) :: asked = asks answer action frame := by
  generalize hreply : frame.reply answer action = reply at h
  cases h with
  | absent nobody => simp only [asks, nobody]
  | called somebody =>
    rw [WalkFrame.reply, somebody, Option.isSome_some, if_pos rfl] at hreply
    simp only [asks, somebody, hreply]

theorem continues_iff {action : Action} {frame : WalkFrame} :
    continues answer action frame = true ↔ frame.reply answer action = .continueUnwind :=
  beq_iff_eq

theorem split_at_stop {action : Action} {frame : WalkFrame} {frames : List WalkFrame}
    (h : frames.find? (!continues answer action ·) = some frame) :
    ∃ passed ahead, frames = passed ++ frame :: ahead ∧
      frames.takeWhile (continues answer action) = passed ∧
      (∀ f ∈ passed, f.reply answer action = .continueUnwind) ∧
      frame.reply answer action ≠ .continueUnwind := by
  obtain ⟨stops, passed, ahead, rfl, hp⟩ := List.find?_eq_some_iff_append.mp h
  simp only [Bool.not_eq_true', Bool.not_not] at stops hp
  refine ⟨passed, ahead, rfl, ?_, fun f hf => continues_iff.mp (hp f hf), ?_⟩
  · rw [List.takeWhile_append_of_pos hp, List.takeWhile_cons_of_neg (by simp [stops]),
      List.append_nil]
  · intro hc
    rw [continues_iff.mpr hc] at stops
    cases stops

theorem all_continue {action : Action} {frames : List WalkFrame}
    (h : frames.find? (!continues answer action ·) = none) :
    frames.takeWhile (continues answer action) = frames ∧
      ∀ f ∈ frames, f.reply answer action = .continueUnwind := by
  have hc : ∀ f ∈ frames, continues answer action f = true := by
    simpa using List.find?_eq_none.mp h
  refine ⟨?_, fun f hf => continues_iff.mp (hc f hf)⟩
  have hall : (frames ++ []).takeWhile (continues answer action) =
      frames ++ [].takeWhile (continues answer action) := List.takeWhile_append_of_pos hc
  simpa using hall

end Course

namespace Unwind

open Course

variable {W ω : Type} [FrameWalker W]
  {Stands : W → Option WalkFrame → List WalkFrame → Prop} {routines : Routines ω}
  {answer : WalkFrame → Action → Reason} {unwind unwind' unwind'' : Unwind W ω}
  {current : Option WalkFrame} {frame : WalkFrame} {frames ahead ahead' : List WalkFrame}
  {budget : Nat}

theorem heard_replayed (walks : Walks Stands) (answers : Answers routines Stands answer)
    (h : Stands unwind.walker current (frame :: ahead)) (action : Action)
    (calls : List ProtocolCall) :
    (FrameWalker.next unwind.walker).1 = .ok (some frame) ∧
      reply routines (after next unwind) frame action = frame.reply answer action ∧
      heard routines.recording (unwind.recorded calls) frame action =
        (heard routines unwind frame action).recorded (calls ++ asks answer action frame) := by
  have hcame := (walks.next h).1
  have hreply := reply_next answers h action
  obtain ⟨asked, hasked, hheard, -⟩ := heard_recorded routines unwind calls action hcame
  rw [hreply] at hasked
  exact ⟨hcame, hreply, by rw [hheard, asks_of_asked hasked]⟩

/-- The unwind has gone on to where the frames `ahead` come next. Its phase is what it
was, and so are the words of the exception if no routine writes them. -/
structure Went (routines : Routines ω)
    (Stands : W → Option WalkFrame → List WalkFrame → Prop) (unwind unwind' : Unwind W ω)
    (ahead : List WalkFrame) : Prop where
  stands : ∃ current, Stands unwind'.walker current ahead
  phase : unwind'.phase = unwind.phase
  words : routines.Discreet → unwind'.exception.words = unwind.exception.words

omit [FrameWalker W] in
theorem Went.trans (h : Went routines Stands unwind unwind' ahead)
    (h' : Went routines Stands unwind' unwind'' ahead') :
    Went routines Stands unwind unwind'' ahead' where
  stands := h'.stands
  phase := h'.phase.trans h.phase
  words discreet := (h'.words discreet).trans (h.words discreet)

theorem went_heard (routines : Routines ω) (walks : Walks Stands)
    (h : Stands unwind.walker current (frame :: ahead)) (action : Action) :
    Went routines Stands unwind (heard routines unwind frame action) ahead where
  stands := ⟨some frame, stands_heard routines walks h action⟩
  phase := phase_heard routines unwind frame action
  words discreet := words_heard unwind discreet frame action

theorem went_unwoundPast (routines : Routines ω) (walks : Walks Stands)
    (h : Stands unwind.walker (some frame) ahead) :
    Went routines Stands unwind (after unwoundPast unwind) ahead where
  stands := ⟨some frame, (walks.unwoundPast h).2⟩
  phase := rfl
  words _ := rfl

/-! ## The first phase -/

theorem searchFrames_passed (walks : Walks Stands) (answers : Answers routines Stands answer)
    (passed : ∀ frame ∈ frames, frame.reply answer .search = .continueUnwind)
    (h : Stands unwind.walker current (frames ++ ahead)) (calls : List ProtocolCall) :
    ∃ unwind', Went routines Stands unwind unwind' ahead ∧ ∀ budget,
      searchFrames routines (frames.length + budget) unwind =
        searchFrames routines budget unwind' ∧
      searchFrames routines.recording (frames.length + budget) (unwind.recorded calls) =
        searchFrames routines.recording budget
          (unwind'.recorded (calls ++ searches answer frames)) := by
  induction frames generalizing unwind current calls with
  | nil =>
    refine ⟨unwind, ⟨⟨current, h⟩, rfl, fun _ => rfl⟩, fun budget => ?_⟩
    rw [List.length_nil, Nat.zero_add, searches, List.flatMap_nil, List.append_nil]
    exact ⟨rfl, rfl⟩
  | cons frame frames ih =>
    obtain ⟨hcame, hreply, hheard⟩ := heard_replayed walks answers h .search calls
    rw [passed frame List.mem_cons_self] at hreply
    have hfound : ¬Reason.continueUnwind = .handlerFound := nofun
    have hwent := went_heard routines walks h .search
    obtain ⟨unwind', hrest, hruns⟩ := ih (fun f hf => passed f (List.mem_cons_of_mem _ hf))
      (stands_heard routines walks h .search) (calls ++ asks answer .search frame)
    refine ⟨unwind', hwent.trans hrest, fun budget => ?_⟩
    rw [List.length_cons, Nat.add_right_comm, searchFrames_succ, searchFrames_succ,
      next_answer_recorded, after_next_recorded, hcame]
    dsimp only
    rw [reply_recorded, hheard, hreply, if_neg hfound, if_neg hfound, if_pos rfl, if_pos rfl,
      (hruns budget).1, (hruns budget).2, searches, searches, List.flatMap_cons, List.append_assoc]
    exact ⟨rfl, rfl⟩

theorem searchFrames_ended (walks : Walks Stands) (answers : Answers routines Stands answer)
    (passed : ∀ frame ∈ frames, frame.reply answer .search = .continueUnwind)
    (h : Stands unwind.walker current frames) (enough : frames.length < budget)
    (calls : List ProtocolCall) :
    ∃ unwind', searchFrames routines budget unwind = some (.ok none, unwind') ∧
      searchFrames routines.recording budget (unwind.recorded calls) =
        some (.ok none,
          unwind'.recorded (calls ++ searches answer frames ++ [.next (.ok none)])) ∧
      (routines.Discreet → unwind'.exception.words = unwind.exception.words) := by
  obtain ⟨rest, rfl⟩ : ∃ rest, budget = frames.length + (rest + 1) :=
    ⟨budget - frames.length - 1, by omega⟩
  rw [← List.append_nil frames] at h
  obtain ⟨walked, hwent, hruns⟩ := searchFrames_passed walks answers passed h calls
  obtain ⟨current, hcome⟩ := hwent.stands
  rw [(hruns (rest + 1)).1, (hruns (rest + 1)).2, searchFrames_succ, searchFrames_succ,
    next_answer_recorded, after_next_recorded, walks.last hcome]
  exact ⟨_, rfl, rfl, hwent.words⟩

theorem searchFrames_course (walks : Walks Stands) (answers : Answers routines Stands answer)
    (passed : ∀ frame ∈ frames, frame.reply answer .search = .continueUnwind)
    (h : Stands unwind.walker current (frames ++ frame :: ahead))
    (enough : frames.length < budget) (stops : frame.reply answer .search ≠ .continueUnwind)
    (calls : List ProtocolCall) :
    ∃ unwind' result, Went routines Stands unwind unwind' ahead ∧
      (result = if frame.reply answer .search = .handlerFound then .ok (some frame.id)
        else .error (.personality 1 (frame.reply answer .search))) ∧
      searchFrames routines budget unwind = some (result, unwind') ∧
      searchFrames routines.recording budget (unwind.recorded calls) =
        some (result,
          unwind'.recorded (calls ++ searches answer frames ++ asks answer .search frame)) := by
  obtain ⟨rest, rfl⟩ : ∃ rest, budget = frames.length + (rest + 1) :=
    ⟨budget - frames.length - 1, by omega⟩
  obtain ⟨walked, hwent, hruns⟩ := searchFrames_passed walks answers passed h calls
  obtain ⟨current, hcome⟩ := hwent.stands
  obtain ⟨hcame, hreply, hheard⟩ :=
    heard_replayed walks answers hcome .search (calls ++ searches answer frames)
  refine ⟨heard routines walked frame .search, _,
    hwent.trans (went_heard routines walks hcome .search), rfl, ?_⟩
  rw [(hruns (rest + 1)).1, (hruns (rest + 1)).2, searchFrames_succ, searchFrames_succ,
    next_answer_recorded, after_next_recorded, hcame]
  dsimp only
  rw [reply_recorded, hheard, hreply]
  by_cases hfound : frame.reply answer .search = .handlerFound
  · rw [if_pos hfound, if_pos hfound, if_pos hfound]
    exact ⟨rfl, rfl⟩
  · rw [if_neg hfound, if_neg hfound, if_neg hfound, if_neg stops, if_neg stops]
    exact ⟨rfl, rfl⟩

/-! ## The second phase -/

theorem cleanupFrames_passed (walks : Walks Stands) (answers : Answers routines Stands answer)
    {handler : Word} (other : ∀ frame ∈ frames, frame.id ≠ handler)
    (passed : ∀ frame ∈ frames, frame.reply answer .cleanup = .continueUnwind)
    (h : Stands unwind.walker current (frames ++ ahead)) (calls : List ProtocolCall) :
    ∃ unwind', Went routines Stands unwind unwind' ahead ∧ ∀ budget,
      cleanupFrames routines handler (frames.length + budget) unwind =
        cleanupFrames routines handler budget unwind' ∧
      cleanupFrames routines.recording handler (frames.length + budget) (unwind.recorded calls) =
        cleanupFrames routines.recording handler budget
          (unwind'.recorded (calls ++ leaves answer frames)) := by
  induction frames generalizing unwind current calls with
  | nil =>
    refine ⟨unwind, ⟨⟨current, h⟩, rfl, fun _ => rfl⟩, fun budget => ?_⟩
    rw [List.length_nil, Nat.zero_add, leaves, List.flatMap_nil, List.append_nil]
    exact ⟨rfl, rfl⟩
  | cons frame frames ih =>
    have hother : frame.id ≠ handler := other frame List.mem_cons_self
    obtain ⟨hcame, hreply, hheard⟩ := heard_replayed walks answers h .cleanup calls
    rw [passed frame List.mem_cons_self] at hreply
    have hinstall : ¬Reason.continueUnwind = .installContext := nofun
    have hstands := stands_heard routines walks h .cleanup
    obtain ⟨hleft, hbehind⟩ := walks.unwoundPast hstands
    have hwent := (went_heard routines walks h .cleanup).trans
      (went_unwoundPast routines walks hstands)
    have hbehind : Stands (after unwoundPast (heard routines unwind frame .cleanup)).walker
      (some frame) (frames ++ ahead) := hbehind
    obtain ⟨unwind', hrest, hruns⟩ := ih (fun f hf => other f (List.mem_cons_of_mem _ hf))
      (fun f hf => passed f (List.mem_cons_of_mem _ hf)) hbehind
      (calls ++ asks answer .cleanup frame ++ [.unwoundPast (.ok ())])
    refine ⟨unwind', hwent.trans hrest, fun budget => ?_⟩
    have hduty : frame.duty handler = .cleanup := if_neg hother
    rw [List.length_cons, Nat.add_right_comm, cleanupFrames_succ, cleanupFrames_succ,
      next_answer_recorded, after_next_recorded, hcame]
    dsimp only
    rw [hduty, reply_recorded, hheard, hreply, if_neg hinstall, if_neg hinstall,
      if_pos ⟨rfl, hother⟩, if_pos ⟨rfl, hother⟩, unwoundPast_answer_recorded,
      after_unwoundPast_recorded, hleft]
    dsimp only
    rw [(hruns budget).1, (hruns budget).2, leaves, leaves, List.flatMap_cons]
    simp only [List.append_assoc, and_self]

/-- The frame that ends the second phase: the handler, or one before it that does not
continue. -/
theorem cleanupFrames_settled (walks : Walks Stands) (answers : Answers routines Stands answer)
    (h : Stands unwind.walker current (frame :: ahead)) {handler : Word}
    (phase : unwind.phase = .cleaningUp)
    (stops : frame.reply answer (frame.duty handler) = .continueUnwind → frame.id = handler)
    (calls before : List ProtocolCall) :
    let course := settle answer frame (frame.duty handler) before
      (if frame.id = handler then .complete else .cleaningUp) handler
    ∃ unwind',
      orFail (cleanupFrames routines handler (budget + 1)) .fatalPhase2Error unwind =
        some (course.reason, unwind') ∧
      orFail (cleanupFrames routines.recording handler (budget + 1)) .fatalPhase2Error
          (unwind.recorded (calls ++ before)) =
        some (course.reason, unwind'.recorded (calls ++ course.calls)) ∧
      unwind'.phase = course.phase ∧
      (routines.Discreet → unwind'.exception.words = unwind.exception.words) := by
  obtain ⟨hcame, hreply, hheard⟩ :=
    heard_replayed walks answers h (frame.duty handler) (calls ++ before)
  have hwent := went_heard routines walks h (frame.duty handler)
  have hinstall := walks.install (stands_heard routines walks h (frame.duty handler))
  rw [orFail_eq, orFail_eq, cleanupFrames_succ, cleanupFrames_succ, next_answer_recorded,
    after_next_recorded, hcame]
  dsimp only
  rw [reply_recorded, hheard, hreply]
  generalize heard routines unwind frame (frame.duty handler) = heard at hwent hinstall
  by_cases hinstalls : frame.reply answer (frame.duty handler) = .installContext
  · rw [if_pos hinstalls, if_pos hinstalls, install_answer_recorded, after_install_recorded,
      hinstall]
    simp only [settle, hinstalls]
    refine ⟨_, rfl, ?_, ?_, ?_⟩
    · rw [List.append_assoc, List.append_assoc, List.append_assoc]
      split <;> rfl
    · split
      · rfl
      · exact hwent.phase.trans phase
    · intro discreet
      rw [← hwent.words discreet]
      split <;> rfl
  · have hends : ¬(frame.reply answer (frame.duty handler) = .continueUnwind ∧
      frame.id ≠ handler) := fun hgoes => hgoes.2 (stops hgoes.1)
    rw [if_neg hinstalls, if_neg hinstalls, if_neg hends, if_neg hends]
    simp only [settle_refused hinstalls]
    refine ⟨_, rfl, ?_, rfl, hwent.words⟩
    rw [List.append_assoc]
    rfl

theorem cleanupFrames_course (walks : Walks Stands) (answers : Answers routines Stands answer)
    {handler : Word} (other : ∀ frame ∈ frames, frame.id ≠ handler)
    (passed : ∀ frame ∈ frames, frame.reply answer .cleanup = .continueUnwind)
    (h : Stands unwind.walker current (frames ++ frame :: ahead))
    (enough : frames.length < budget) (phase : unwind.phase = .cleaningUp)
    (stops : frame.reply answer (frame.duty handler) = .continueUnwind → frame.id = handler)
    (calls : List ProtocolCall) :
    let course := settle answer frame (frame.duty handler) (.rewind :: leaves answer frames)
      (if frame.id = handler then .complete else .cleaningUp) handler
    ∃ unwind',
      orFail (cleanupFrames routines handler budget) .fatalPhase2Error unwind =
        some (course.reason, unwind') ∧
      orFail (cleanupFrames routines.recording handler budget) .fatalPhase2Error
          (unwind.recorded (calls ++ [.rewind])) =
        some (course.reason, unwind'.recorded (calls ++ course.calls)) ∧
      unwind'.phase = course.phase ∧
      (routines.Discreet → unwind'.exception.words = unwind.exception.words) := by
  obtain ⟨rest, rfl⟩ : ∃ rest, budget = frames.length + (rest + 1) :=
    ⟨budget - frames.length - 1, by omega⟩
  obtain ⟨walked, hwent, hruns⟩ :=
    cleanupFrames_passed walks answers other passed h (calls ++ [.rewind])
  obtain ⟨current, hcome⟩ := hwent.stands
  obtain ⟨unwind', hrun, hrecorded, hend, hkept⟩ :=
    cleanupFrames_settled walks answers hcome (hwent.phase.trans phase) stops calls
      (.rewind :: leaves answer frames)
  refine ⟨unwind', ?_, ?_, hend, fun discreet => (hkept discreet).trans (hwent.words discreet)⟩
  · rw [orFail_eq, (hruns (rest + 1)).1, ← orFail_eq]
    exact hrun
  · rw [orFail_eq, (hruns (rest + 1)).2, ← orFail_eq, List.append_assoc]
    exact hrecorded

theorem cleanup_replayed (walks : Walks Stands) (answers : Answers routines Stands answer)
    {before : List WalkFrame} {handler : WalkFrame}
    (h : Stands (rewound unwind).walker current (before ++ handler :: ahead))
    (other : ∀ frame ∈ before, frame.id ≠ handler.id) (enough : before.length < budget)
    (target : unwind.exception.target = handler.id) (calls : List ProtocolCall) :
    ∃ unwind', cleanup routines budget unwind =
        some ((Course.cleanup answer before handler).reason, unwind') ∧
      cleanup routines.recording budget (unwind.recorded calls) =
        some ((Course.cleanup answer before handler).reason,
          unwind'.recorded (calls ++ (Course.cleanup answer before handler).calls)) ∧
      unwind'.phase = (Course.cleanup answer before handler).phase ∧
      (routines.Discreet → unwind'.exception.words = unwind.exception.words) := by
  rw [cleanup_eq, cleanup_eq, exception_recorded, target, cleaning_recorded]
  have hphase : (cleaning unwind).phase = .cleaningUp := rfl
  have hstands : Stands (cleaning unwind).walker current (before ++ handler :: ahead) := h
  cases hfind : before.find? (!continues answer .cleanup ·) with
  | none =>
    obtain ⟨htake, passed⟩ := all_continue hfind
    have hcourse := cleanupFrames_course walks answers other passed hstands enough hphase
      (fun _ => rfl) calls
    rw [show handler.duty handler.id = .handle from if_pos rfl, if_pos rfl] at hcourse
    simp only [Course.cleanup, hfind, htake]
    exact hcourse
  | some frame =>
    obtain ⟨left, between, rfl, htake, passed, stops⟩ := split_at_stop hfind
    have hother : frame.id ≠ handler.id :=
      other frame (List.mem_append_right _ List.mem_cons_self)
    have hduty : frame.duty handler.id = .cleanup := if_neg hother
    rw [List.append_assoc] at hstands
    have hleft : left.length < budget := by
      rw [List.length_append] at enough
      omega
    have hcourse := cleanupFrames_course walks answers
      (fun f hf => other f (List.mem_append_left _ hf)) passed hstands hleft hphase
      (fun hgoes => absurd (hduty ▸ hgoes) stops) calls
    rw [hduty, if_neg hother] at hcourse
    simp only [Course.cleanup, hfind, htake]
    exact hcourse

theorem ids_before {before : List WalkFrame}
    (distinct : ((before ++ frame :: ahead).map (·.id)).Nodup) :
    ∀ f ∈ before, f.id ≠ frame.id := by
  rw [List.map_append, List.map_cons] at distinct
  intro f hf he
  exact (List.nodup_append.mp distinct).2.2 f.id (List.mem_map_of_mem hf) frame.id
    List.mem_cons_self he

/-- A raise over a walk that can be repeated makes exactly the calls that the frames and
the answers of their personalities prescribe, and ends as they prescribe. The exception
remembers the handler then, if no personality writes its words. -/
theorem raise_replayed (replays : Replays frames Stands)
    (answers : Answers routines Stands answer) (h : Stands unwind.walker current ahead)
    (distinct : (frames.map (·.id)).Nodup) (enough : frames.length < budget) :
    ∃ unwind', raise routines budget unwind =
        some ((Course.raise answer frames).reason, unwind') ∧
      raise routines.recording budget (unwind.recorded []) =
        some ((Course.raise answer frames).reason,
          unwind'.recorded (Course.raise answer frames).calls) ∧
      unwind'.phase = (Course.raise answer frames).phase ∧
      (routines.Discreet →
        unwind'.exception.target = (Course.raise answer frames).target) := by
  have walks := replays.toWalks
  rw [raise_eq, raise_eq, searching_recorded, List.nil_append]
  have hwords : (searching unwind).exception.words = (0, 0) := rfl
  have hstands : Stands (searching unwind).walker none frames := replays.rewind h
  generalize searching unwind = begun at hwords hstands
  cases hfind : frames.find? (!continues answer .search ·) with
  | none =>
    obtain ⟨htake, passed⟩ := all_continue hfind
    obtain ⟨walked, hrun, hrecorded, hkept⟩ :=
      searchFrames_ended walks answers passed hstands enough [.rewind]
    simp only [Course.raise, hfind, htake, hrun, hrecorded]
    exact ⟨_, rfl, rfl, rfl, fun discreet => congrArg Prod.snd ((hkept discreet).trans hwords)⟩
  | some frame =>
    obtain ⟨before, ahead, hframes, htake, passed, stops⟩ := split_at_stop hfind
    have hlt : before.length < budget := by
      rw [hframes, List.length_append] at enough
      omega
    rw [hframes] at hstands
    obtain ⟨walked, result, hwent, hresult, hrun, hrecorded⟩ :=
      searchFrames_course walks answers passed hstands hlt stops [.rewind]
    have hkept : routines.Discreet → walked.exception.words = (0, 0) :=
      fun discreet => (hwent.words discreet).trans hwords
    rw [hrun, hrecorded]
    by_cases hfound : frame.reply answer .search = .handlerFound
    · rw [if_pos hfound] at hresult
      subst hresult
      simp only [Course.raise, hfind, htake, hfound]
      obtain ⟨current, hcome⟩ := hwent.stands
      have hagain : Stands (rewound (chosen frame.id walked)).walker none frames :=
        replays.rewind hcome
      rw [hframes] at hagain distinct
      obtain ⟨unwind', hcleaned, hcleaned', hend, hwords'⟩ :=
        cleanup_replayed walks answers hagain (ids_before distinct) hlt rfl
          ([.rewind] ++ searches answer before ++ asks answer .search frame)
      refine ⟨unwind', hcleaned, hcleaned', hend, fun discreet => ?_⟩
      have htarget : unwind'.exception.target = frame.id :=
        congrArg Prod.snd (hwords' discreet)
      rw [htarget, Course.target_cleanup]
    · rw [if_neg hfound] at hresult
      subst hresult
      rw [Course.raise_refused hfind hfound, htake]
      exact ⟨_, rfl, rfl, rfl, fun discreet => congrArg Prod.snd (hkept discreet)⟩

/-- Functions of the first kind handle every exception, all others let it pass. -/
def firstHandles (address : Word) (action : Action) : Reason :=
  if FrameKind.first.personality = some address then
    if action = .search then .handlerFound else .installContext
  else .continueUnwind

/-- Routines that answer so and do nothing else. -/
def firstHandlesRoutines : Routines Unit where
  personality address action context state := (firstHandles address action, context, state)
  stop _ _ _ _ context state := (.noReason, context, state)

/-- Three functions, the outermost of which handles exceptions, between the
ends of a stack. -/
def threeFunctions : Chain := Chain.ofKinds [.first, .plain, .second]

theorem raise_replayed_threeFunctions :
    let unwind : Unwind ChainedWalker Unit :=
      start (ChainedWalker.start threeFunctions) ⟨0x71000000, 0, 0, 0⟩ ()
    let course := Course.raise (fun frame => firstHandles (frame.personality.getD 0))
      (threeFunctions.map ChainFrame.walkFrame)
    course.reason = .installContext ∧ course.phase = .complete ∧ course.target = 0x6fffffb0 ∧
      firstHandlesRoutines.Discreet ∧
      ∃ unwind', raise firstHandlesRoutines 6 unwind = some (course.reason, unwind') ∧
        raise firstHandlesRoutines.recording 6 (unwind.recorded []) =
          some (course.reason, unwind'.recorded course.calls) ∧
        unwind'.phase = course.phase ∧
        (firstHandlesRoutines.Discreet → unwind'.exception.target = course.target) :=
  ⟨by decide, by decide, by decide, fun _ _ _ _ _ => rfl,
    raise_replayed (ChainedWalker.replays threeFunctions)
      (fun _ _ frame _ _ address hp _ _ _ => by
        change firstHandles address _ = firstHandles (frame.personality.getD 0) _
        rw [hp, Option.getD_some])
      (show ChainedWalker.Stands threeFunctions _ none _ from ⟨rfl, rfl⟩) (by decide) (by decide)⟩

end Unwind

end Unwinding
