import Unwinding.Proofs.Cursor.Walk
import Unwinding.Proofs.Protocol.Account

/-!
# Which frame is taken for the handler

The first phase remembers its handler by name, and the second takes the first frame
with this name for it. Over a walk that restores registers both phases come to the
same frames, so it is the same frame just when no frame further in has its stack
pointer. An interrupted function without a frame of its own has that of its caller:
the second phase takes it for the handler, and the raise fails.
-/

namespace Unwinding

variable {arch : Arch} {program : Program} {origin : RegisterFile arch}

namespace RestoringWalker

variable {walker walker' : RestoringWalker arch} {position : Position arch} {frame : WalkFrame}
  {call : ProtocolCall} {calls : List ProtocolCall}

theorem kept_of_install (walker : RestoringWalker arch) :
    (FrameWalker.install walker).2.program = walker.program ∧
      (FrameWalker.install walker).2.origin = walker.origin := by
  change (RestoringWalker.install walker).2.program = walker.program ∧
    (RestoringWalker.install walker).2.origin = walker.origin
  unfold RestoringWalker.install
  split <;> exact ⟨rfl, rfl⟩

theorem cursor_of_install (walker : RestoringWalker arch) :
    (FrameWalker.install walker).2.cursor = walker.cursor := by
  change (RestoringWalker.install walker).2.cursor = walker.cursor
  unfold RestoringWalker.install
  split <;> rfl

theorem kept_of_leads (h : Leads walker calls walker') :
    walker'.program = walker.program ∧ walker'.origin = walker.origin := by
  induction h with
  | nil => exact ⟨rfl, rfl⟩
  | cons moves rest ih =>
    have hkept : _ = _ ∧ _ = _ := ih
    cases moves with
    | rewind | personality | stop | unwoundPast => exact hkept
    | next =>
      obtain ⟨hprogram, horigin⟩ := kept_of_next _
      exact ⟨hkept.1.trans hprogram, hkept.2.trans horigin⟩
    | install =>
      obtain ⟨hprogram, horigin⟩ := kept_of_install _
      exact ⟨hkept.1.trans hprogram, hkept.2.trans horigin⟩

/-- The walker has come to this position in the program. -/
structure Stands (program : Program) (position : Position arch) (walker : RestoringWalker arch) :
    Prop where
  walks : walker.program = program
  cursor : walker.cursor.At program position

theorem stands_rewind (walker : RestoringWalker arch) :
    Stands walker.program (Position.start walker.origin) (FrameWalker.rewind walker) where
  walks := rfl
  cursor := Cursor.at_start walker.origin

theorem Stands.asked (h : Stands program position walker) {action : Action}
    {answer : Reason} {asked : List ProtocolCall} (asks : frame.Asked action answer asked)
    (leads : Leads walker (.next (.ok (some frame)) :: asked) walker') :
    ∃ visit, position.outward program = some visit ∧ frame = visit.walkFrame ∧
      Stands program visit.position walker' := by
  obtain ⟨hwalks, hat⟩ := h
  subst hwalks
  obtain ⟨came, rest⟩ := leads.of_next
  obtain ⟨visit, houtward, hframe, hnext⟩ := came_of_next hat came
  have hstands : Stands walker.program visit.position (FrameWalker.next walker).2 :=
    ⟨(kept_of_next walker).1, hnext⟩
  refine ⟨visit, houtward, hframe, ?_⟩
  cases asks with
  | absent nobody => exact rest.of_nil ▸ hstands
  | called somebody =>
    cases rest with
    | cons moves rest =>
      cases moves
      rw [rest.of_nil]
      exact ⟨hstands.walks, hstands.cursor⟩

/-- A walk comes to `frames`, in this order, and perhaps to more. -/
def ComesTo (program : Program) (position : Position arch) (frames : List WalkFrame) : Prop :=
  (position.visits program frames.length).map Visit.walkFrame = frames

theorem comesTo_cons {visit : Visit arch} {frames : List WalkFrame}
    (houtward : position.outward program = some visit)
    (h : ComesTo program visit.position frames) :
    ComesTo program position (visit.walkFrame :: frames) := by
  rw [ComesTo, List.length_cons, Position.visits_succ _ houtward, List.map_cons, h]

theorem comesTo_nil : ComesTo program position [] := rfl

theorem comesTo_of_searching {passed : List WalkFrame} {stop : Option WalkFrame}
    {result : Except WalkError (Option Word)} {made : List ProtocolCall}
    (h : Searching passed stop result made) (stands : Stands program position walker)
    (leads : Leads walker made walker') : ComesTo program position (passed ++ stop.toList) := by
  induction h generalizing walker position with
  | ended | failed => exact comesTo_nil
  | found asks | refused asks =>
    obtain ⟨visit, houtward, rfl, -⟩ := stands.asked asks leads
    exact comesTo_cons houtward comesTo_nil
  | passed asks rest ih =>
    rw [← List.cons_append] at leads
    obtain ⟨asking, hasked, hrest⟩ := leads.split
    obtain ⟨visit, houtward, rfl, hstands⟩ := stands.asked asks hasked
    exact comesTo_cons houtward (ih hstands hrest)

theorem comesTo_of_cleaningUp {handler : Word} {left : List WalkFrame} {stop : Option WalkFrame}
    {result : Except WalkError Reason} {made : List ProtocolCall}
    (h : CleaningUp handler left stop result made) (stands : Stands program position walker)
    (leads : Leads walker made walker') : ComesTo program position (left ++ stop.toList) := by
  induction h generalizing walker position with
  | lost | failed => exact comesTo_nil
  | refused asks =>
    obtain ⟨visit, houtward, rfl, -⟩ := stands.asked asks leads
    exact comesTo_cons houtward comesTo_nil
  | installed asks | notInstalled error asks | notLeft error other asks =>
    rw [← List.cons_append] at leads
    obtain ⟨asking, hasked, -⟩ := leads.split
    obtain ⟨visit, houtward, rfl, -⟩ := stands.asked asks hasked
    exact comesTo_cons houtward comesTo_nil
  | left other asks rest ih =>
    rw [← List.cons_append] at leads
    obtain ⟨asking, hasked, hrest⟩ := leads.split
    obtain ⟨visit, houtward, rfl, hstands⟩ := stands.asked asks hasked
    have hleft := hrest.of_unwoundPast.2
    exact comesTo_cons houtward (ih ⟨hstands.walks, hstands.cursor⟩ hleft)

theorem ComesTo.take {frames frames' : List WalkFrame} (h : ComesTo program position frames)
    (h' : ComesTo program position frames') (shorter : frames.length ≤ frames'.length) :
    frames = frames'.take frames.length := by
  calc
    frames = (position.visits program frames.length).map Visit.walkFrame := h.symm
    _ = ((position.visits program frames'.length).take frames.length).map Visit.walkFrame := by
      rw [Position.visits_take shorter]
    _ = frames'.take frames.length := by rw [List.map_take, h']

/-- What the two phases make of a walk. The first passes frames and stops at `handler`;
the second leaves frames and stops, perhaps at one that it takes for the handler. -/
structure Placed (program : Program) (origin : RegisterFile arch) (passed : List WalkFrame)
    (handler : WalkFrame) (left : List WalkFrame) (stop : Option WalkFrame) : Prop where
  searched : ComesTo program (Position.start origin) (passed ++ [handler])
  /-- The second phase does not come further than the first. -/
  again : left ++ stop.toList <+: passed ++ [handler]
  other : ∀ frame ∈ left, frame.id ≠ handler.id

theorem placed_of_comesTo {passed left : List WalkFrame} {handler : WalkFrame}
    {stop : Option WalkFrame}
    (searched : ComesTo program (Position.start origin) (passed ++ [handler]))
    (cleaned : ComesTo program (Position.start origin) (left ++ stop.toList))
    (other : ∀ frame ∈ left, frame.id ≠ handler.id) :
    Placed program origin passed handler left stop := by
  refine ⟨searched, ?_, other⟩
  rcases Nat.le_total (left ++ stop.toList).length (passed ++ [handler]).length with hle | hle
  · rw [cleaned.take searched hle]
    exact List.take_prefix ..
  -- a second phase that comes further would have left the handler
  have hprefix : passed ++ [handler] <+: left ++ stop.toList := by
    rw [searched.take cleaned hle]
    exact List.take_prefix ..
  have hnot : ¬ passed ++ [handler] <+: left := fun hinner =>
    other handler (hinner.subset (by simp)) rfl
  cases stop with
  | none => exact absurd (by simpa using hprefix) hnot
  | some last =>
    rcases List.prefix_concat_iff.mp hprefix with hsame | hinner
    · exact ⟨[], (List.append_nil _).trans hsame.symm⟩
    · exact absurd hinner hnot

/-- The second phase takes the right frame for the handler just when no frame further in
has the same name. -/
theorem Placed.place {passed left : List WalkFrame} {handler last : WalkFrame}
    (h : Placed program origin passed handler left (some last)) (taken : last.id = handler.id) :
    left.length = passed.length ↔ ∀ frame ∈ passed, frame.id ≠ handler.id := by
  have hagain : left ++ [last] <+: passed ++ [handler] := h.again
  rcases List.prefix_concat_iff.mp hagain with hsame | hinner
  · obtain ⟨rfl, -⟩ := List.append_inj' hsame rfl
    exact iff_of_true rfl h.other
  · have hlt : left.length + 1 ≤ passed.length := by
      simpa using hinner.length_le
    exact iff_of_false (Nat.ne_of_lt hlt) fun hother =>
      hother last (hinner.subset (by simp)) taken

theorem Placed.place_of_climbs {passed left : List WalkFrame} {handler last : WalkFrame}
    (h : Placed program origin passed handler left (some last)) (taken : last.id = handler.id)
    (climbs : ∀ visit ∈ (Position.start origin).visits program (passed.length + 1),
      visit.climbs program = true) : left.length = passed.length := by
  have hnodup := Position.nodup_visits climbs
  have hids : ((Position.start origin).visits program (passed.length + 1)).map
      (fun visit => visit.walkFrame.id) = (passed ++ [handler]).map (·.id) := by
    rw [← h.searched, List.length_append, List.length_singleton, List.map_map]
    rfl
  rw [hids, List.map_append] at hnodup
  refine (h.place taken).mpr fun frame hframe hsame => ?_
  exact (List.nodup_append.mp hnodup).2.2 _ (List.mem_map_of_mem hframe) handler.id (by simp) hsame

end RestoringWalker

namespace Unwind

open RestoringWalker

/-- The names of the frames of a walk differ where every frame has its caller above it,
as it has when its frame address is above its stack pointer and no rule names the stack
pointer. In every raise both phases come to the same frames, and what the second phase
takes for the handler is at its place just when no frame further in has its name. -/
theorem place_of_handler (program : Program) (origin : RegisterFile arch) :
    (∀ count,
      (∀ visit ∈ (Position.start origin).visits program count, visit.climbs program = true) →
      (((Position.start origin).visits program count).map fun visit =>
        visit.walkFrame.id).Nodup) ∧
    (∀ (visit : Visit arch) (cfa : Word),
      visit.frame.row.frameAddress program.space visit.position.file = .ok cfa →
      visit.position.file.sp < cfa → ¬ visit.frame.row.Governs arch arch.sp →
      visit.climbs program = true) ∧
    ∀ {ω : Type} (routines : Routines ω) (budget : Nat)
      (unwind unwind' : Unwind (RestoringWalker arch) ω) (reason : Reason),
      unwind.walker.program = program → unwind.walker.origin = origin →
      raise routines budget unwind = some (reason, unwind') →
      reason ≠ .endOfStack ∧ reason ≠ .fatalPhase1Error →
      ∃ passed handler left stop searched cleaned result,
        raise routines.recording budget (unwind.recorded []) =
          some (reason, unwind'.recorded (.rewind :: searched ++ .rewind :: cleaned)) ∧
        Searching passed (some handler) (.ok (some handler.id)) searched ∧
        CleaningUp handler.id left stop result cleaned ∧
        Placed program origin passed handler left stop ∧
        ∀ last, stop = some last → last.id = handler.id →
          (left.length = passed.length ↔ ∀ frame ∈ passed, frame.id ≠ handler.id) ∧
          ((∀ visit ∈ (Position.start origin).visits program (passed.length + 1),
            visit.climbs program = true) → left.length = passed.length) := by
  refine ⟨fun count climbs => Position.nodup_visits climbs,
    fun visit cfa => Visit.climbs_of_frameAddress, ?_⟩
  rintro ω routines budget unwind unwind' reason rfl rfl ran found
  obtain ⟨stored, calls, hraised, hrecorded, hleads, -⟩ := raise_recorded ran []
  obtain ⟨passed, stop, searched, cleaned, rfl, hsearch, hcleaned⟩ := hraised.second_phase found
  obtain ⟨handler, rfl, htarget⟩ := hsearch.stop_of_found
  rw [← htarget] at hsearch hcleaned
  obtain ⟨left, stop, result, made, rfl, hclean⟩ := hcleaned.cleaningUp
  obtain ⟨between, hfirst, hsecond⟩ := hleads.split
  obtain ⟨hwalks, hbegins⟩ := kept_of_leads hfirst
  have hsearched := comesTo_of_searching hsearch (stands_rewind unwind.walker) hfirst.of_rewind
  have hcleanedUp := comesTo_of_cleaningUp hclean (stands_rewind between) hsecond.of_rewind
  rw [hwalks, hbegins] at hcleanedUp
  have hplaced := placed_of_comesTo hsearched hcleanedUp hclean.other_of_left
  refine ⟨passed, handler, left, stop, searched, made, result, hrecorded, hsearch, hclean,
    hplaced, ?_⟩
  rintro last rfl taken
  exact ⟨hplaced.place taken, hplaced.place_of_climbs taken⟩

/-- Four functions: at 0x4000 one that raises, at 0x4ffc one that returns from a signal,
at 0x6000 one without a frame, and at 0x7000 one with a personality. A signal has
interrupted the third, which was called by the fourth. Further out on the stack, the
fourth has called the first. -/
def interruptedMemory : Snapshot where
  endian := .little
  regions := [
    ⟨0x100000, [0x14, 0, 0, 0, 0, 0, 0, 0, 1, 0x7a, 0x52, 0, 1, 0x78, 0x1e, 1, 3, 0x0c, 0x1f, 0, 0,
      0, 0, 0, 0x14, 0, 0, 0, 0x1c, 0, 0, 0, 0, 0x40, 0, 0, 0, 1, 0, 0, 0, 0x0e, 0x20, 0x9e, 1, 0,
      0, 0, 0x14, 0, 0, 0, 0x34, 0, 0, 0, 0, 0x60, 0, 0, 0, 1, 0, 0, 0, 0, 0, 0, 0, 0, 0, 0, 0x14,
      0, 0, 0, 0, 0, 0, 0, 1, 0x7a, 0x52, 0x53, 0, 1, 0x78, 0x20, 1, 3, 0x0c, 0x1f, 0, 0, 0, 0,
      0x1c, 0, 0, 0, 0x1c, 0, 0, 0, 0xfc, 0x4f, 0, 0, 0x14, 0, 0, 0, 0, 0x11, 0x1e, 0x7e, 0x11,
      0x1f, 0x7d, 0x11, 0x20, 0x7c, 0, 0, 0, 0, 0, 0, 0x1c, 0, 0, 0, 0, 0, 0, 0, 1, 0x7a, 0x52,
      0x50, 0, 1, 0x78, 0x1e, 6, 3, 3, 0x20, 0, 0, 0x70, 0x0c, 0x1f, 0, 0, 0, 0, 0, 0, 0, 0x14, 0,
      0, 0, 0x24, 0, 0, 0, 0, 0x70, 0, 0, 0, 1, 0, 0, 0, 0x0e, 0x30, 0x9e, 1, 0, 0, 0, 0, 0, 0,
      0]⟩,
    ⟨0x700018, [0, 0x50, 0, 0, 0, 0, 0, 0]⟩,
    ⟨0x700030, [0x20, 0x70, 0, 0, 0, 0, 0, 0, 0, 2, 0x70, 0, 0, 0, 0, 0, 8, 0x60, 0, 0, 0, 0, 0,
      0]⟩,
    ⟨0x700228, [0, 0, 0, 0, 0, 0, 0, 0]⟩,
    ⟨0x700318, [0x20, 0x70, 0, 0, 0, 0, 0, 0]⟩,
    ⟨0x700348, [0, 0, 0, 0, 0, 0, 0, 0]⟩]

def interruptedProgram : Program :=
  .ofObjects interruptedMemory.space [⟨0x4000, 0x10000,
    ⟨none, some (0x100000, 0xbc), none, .unknown⟩⟩]

/-- The registers of the function that raises. -/
def raiserFile (sp : Word) : RegisterFile .aarch64 := (RegisterFile.zero.setSp sp).setIp 0x4010

/-- Every personality handles the exception. -/
def handlesAll : Routines Unit where
  personality _ action context state :=
    (if action = .search then .handlerFound else .installContext, context, state)
  stop _ _ _ _ context state := (.noReason, context, state)

def raiser (sp : Word) : Unwind (RestoringWalker .aarch64) Unit :=
  start (RestoringWalker.start interruptedProgram (raiserFile sp)) ⟨0x71000000, 0, 0, 0⟩ ()

/-- The frame of the fourth function when it has called the first. -/
def callerOfRaiser : Visit .aarch64 :=
  ((Position.start (raiserFile 0x700300)).outward interruptedProgram).get (by decide +kernel)

/-- Where the fourth function has called the first, the raise comes to it. -/
theorem place_of_handler_called :
    (((Position.start (raiserFile 0x700300)).visits interruptedProgram 4).map fun visit =>
        visit.walkFrame.id).Nodup ∧
      callerOfRaiser.climbs interruptedProgram = true ∧
      (raise handlesAll 4 (raiser 0x700300)).map (·.1) = some .installContext ∧
      ∃ passed handler left stop,
        Placed interruptedProgram (raiserFile 0x700300) passed handler left stop ∧
        ∀ last, stop = some last → last.id = handler.id →
          (left.length = passed.length ↔ ∀ frame ∈ passed, frame.id ≠ handler.id) := by
  obtain ⟨hnodup, hclimbs, hraise⟩ := place_of_handler interruptedProgram (raiserFile 0x700300)
  have hanswer : (raise handlesAll 4 (raiser 0x700300)).map (·.1) = some .installContext := by
    decide +kernel
  have hcaller : callerOfRaiser.climbs interruptedProgram = true :=
    hclimbs callerOfRaiser 0x700350 (by decide +kernel) (by decide +kernel)
      fun governs => governs.2.2.2 (by decide +kernel)
  refine ⟨hnodup 4 (by decide +kernel), hcaller, hanswer, ?_⟩
  obtain ⟨⟨reason, unwind'⟩, ran, rfl⟩ := Option.map_eq_some_iff.mp hanswer
  obtain ⟨passed, handler, left, stop, -, -, -, -, -, -, hplaced, hplace⟩ :=
    hraise handlesAll 4 (raiser 0x700300) unwind' _ rfl rfl ran ⟨nofun, nofun⟩
  exact ⟨passed, handler, left, stop, hplaced,
    fun last hlast taken => (hplace last hlast taken).1⟩

/-- Where a signal has interrupted the third function, it has the name of the fourth: the
first phase finds the fourth, and the second takes the third for it and fails. -/
theorem interrupted_taken_for_handler :
    (((Position.start (raiserFile 0x700000)).visits interruptedProgram 3).map fun visit =>
        visit.walkFrame.id) = [0x700020, 0x700200, 0x700200] ∧
      ¬ (((Position.start (raiserFile 0x700000)).visits interruptedProgram 3).map fun visit =>
        visit.walkFrame.id).Nodup ∧
      (raise handlesAll 4 (raiser 0x700000)).map (fun (reason, unwind) =>
        (reason, unwind.phase, unwind.exception.target)) =
          some (.fatalPhase2Error, .fatalError, 0x700200) := by
  have hids : (((Position.start (raiserFile 0x700000)).visits interruptedProgram 3).map fun visit =>
      visit.walkFrame.id) = [0x700020, 0x700200, 0x700200] := by
    decide +kernel
  refine ⟨hids, ?_, by decide +kernel⟩
  rw [hids]
  decide

end Unwind

end Unwinding
