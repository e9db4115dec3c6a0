import Unwinding.Proofs.Cursor.Reference
import Unwinding.Proofs.Registers.Restored
import Unwinding.Walker.Restoring

/-!
# The frames of a walk

A walk that restores registers comes to the same frames whenever it begins with the
same registers, and it knows a frame by its stack pointer. Whether that is a name of
its own depends on the rules: where each frame has its frame address above its stack
pointer, the names rise from frame to frame, and none of them comes twice. A function
that a signal interrupted before it had a frame has the stack pointer of its caller.
-/

namespace Unwinding

variable {arch : Arch} {program : Program}

/-- A place that a walk comes to, and the frame there. -/
structure Visit (arch : Arch) where
  position : Position arch
  frame : Frame

namespace Visit

/-- The frame as the protocol is told of it. -/
def walkFrame (visit : Visit arch) : WalkFrame :=
  ⟨visit.position.file.sp, RestoringWalker.personality visit.frame.info⟩

/-- What a routine that is called on the frame sees of it. -/
def context (visit : Visit arch) : Context :=
  RestoringWalker.contextOf visit.position.file visit.frame.info

/-- The caller has its stack pointer above that of the frame, if there is a caller. -/
def climbs (program : Program) (visit : Visit arch) : Bool :=
  match visit.frame.row.apply program.space visit.position.file with
  | .ok file => visit.position.file.sp < file.sp
  | .error _ => true

theorem climbs_of_frameAddress {visit : Visit arch} {cfa : Word}
    (hcfa : visit.frame.row.frameAddress program.space visit.position.file = .ok cfa)
    (above : visit.position.file.sp < cfa) (unruled : ¬ visit.frame.row.Governs arch arch.sp) :
    visit.climbs program = true := by
  unfold climbs
  cases happly : visit.frame.row.apply program.space visit.position.file with
  | error error => rfl
  | ok file =>
    obtain ⟨cfa', hcfa', hrestores⟩ := Row.restores_of_apply happly
    cases hcfa.symm.trans hcfa'
    have hsp : file.sp = cfa := hrestores.sp unruled
    exact decide_eq_true (hsp ▸ above)

end Visit

namespace Position

/-- The caller of a position, if the walk goes on to a frame there. -/
def outward (program : Program) (position : Position arch) : Option (Visit arch) :=
  match position.step program with
  | (.ok .stepped, next) =>
    match next.frame program with
    | .ok (some frame) => some ⟨next, frame⟩
    | _ => none
  | _ => none

/-- The first `count` frames outside of a position, or as many as there are. -/
def visits (program : Program) : (count : Nat) → Position arch → List (Visit arch)
  | 0, _ => []
  | count + 1, position =>
    match position.outward program with
    | some visit => visit :: visits program count visit.position
    | none => []

variable {position : Position arch} {visit next : Visit arch}

theorem visits_succ (count : Nat) (houtward : position.outward program = some visit) :
    position.visits program (count + 1) = visit :: visit.position.visits program count := by
  rw [visits, houtward]

theorem visits_take {count count' : Nat} (h : count ≤ count') :
    (position.visits program count').take count = position.visits program count := by
  induction count generalizing position count' with
  | zero => rfl
  | succ count ih =>
    obtain ⟨count', rfl⟩ := Nat.exists_eq_add_one_of_ne_zero (show count' ≠ 0 by omega)
    cases houtward : position.outward program with
    | none => simp [visits, houtward]
    | some visit =>
      rw [visits_succ _ houtward, visits_succ _ houtward, List.take_succ_cons,
        ih (Nat.le_of_succ_le_succ h)]

theorem outward_eq_some : position.outward program = some visit ↔
    position.step program = (.ok .stepped, visit.position) ∧
      visit.position.frame program = .ok (some visit.frame) := by
  unfold outward
  constructor
  · intro h
    split at h
    · next hstep =>
      split at h
      · next hframe =>
        cases h
        exact ⟨hstep, hframe⟩
      · cases h
    · cases h
  · rintro ⟨hstep, hframe⟩
    simp [hstep, hframe]

theorem apply_of_outward {frame : Frame} (hframe : position.frame program = .ok (some frame))
    (h : position.outward program = some visit) :
    frame.row.apply program.space position.file = .ok visit.position.file := by
  obtain ⟨hstep, -⟩ := outward_eq_some.mp h
  rw [step_of_frame hframe] at hstep
  cases happly : frame.row.apply program.space position.file with
  | error error =>
    rw [happly] at hstep
    cases (Prod.mk.inj hstep).1
  | ok file =>
    rw [happly] at hstep
    rw [← (Prod.mk.inj hstep).2]

theorem sp_lt_of_climbs (hframe : visit.position.frame program = .ok (some visit.frame))
    (climbs : visit.climbs program = true) (h : visit.position.outward program = some next) :
    visit.position.file.sp < next.position.file.sp := by
  rw [Visit.climbs, apply_of_outward hframe h] at climbs
  exact of_decide_eq_true climbs

theorem visits_above {count : Nat} (hframe : visit.position.frame program = .ok (some visit.frame))
    (climbs : visit.climbs program = true)
    (outside : ∀ outer ∈ visit.position.visits program count, outer.climbs program = true) :
    ∀ outer ∈ visit.position.visits program count,
      visit.position.file.sp < outer.position.file.sp := by
  induction count generalizing visit with
  | zero => simp [visits]
  | succ count ih =>
    cases houtward : visit.position.outward program with
    | none => simp [visits, houtward]
    | some next =>
      rw [visits_succ _ houtward, List.forall_mem_cons] at outside ⊢
      have hlt := sp_lt_of_climbs hframe climbs houtward
      have habove := ih (outward_eq_some.mp houtward).2 outside.1 outside.2
      exact ⟨hlt, fun outer houter => UInt64.lt_trans hlt (habove outer houter)⟩

theorem visits_rise {count : Nat}
    (climbs : ∀ visit ∈ position.visits program count, visit.climbs program = true) :
    (position.visits program count).Pairwise
      fun inner outer => inner.position.file.sp < outer.position.file.sp := by
  induction count generalizing position with
  | zero => exact .nil
  | succ count ih =>
    cases houtward : position.outward program with
    | none => simp [visits, houtward]
    | some visit =>
      rw [visits_succ _ houtward] at climbs ⊢
      obtain ⟨hvisit, hrest⟩ := List.forall_mem_cons.mp climbs
      exact .cons (visits_above (outward_eq_some.mp houtward).2 hvisit hrest) (ih hrest)

/-- Where each frame climbs, no two frames have the same name. -/
theorem nodup_visits {count : Nat}
    (climbs : ∀ visit ∈ position.visits program count, visit.climbs program = true) :
    ((position.visits program count).map fun visit => visit.walkFrame.id).Nodup :=
  List.pairwise_map.mpr ((visits_rise climbs).imp fun hlt => UInt64.ne_of_lt hlt)

end Position

namespace RestoringWalker

open Cursor (At)

variable {walker : RestoringWalker arch} {position : Position arch}

theorem next_eq (walker : RestoringWalker arch) :
    RestoringWalker.next walker =
      match advance.outcome walker.program walker.cursor with
      | (.error error, cursor) => (.error (.step error), { walker with cursor })
      | (.ok none, cursor) => (.ok none, { walker with cursor })
      | (.ok (some (info, file)), cursor) =>
        (.ok (some ⟨file.sp, personality info⟩),
          { walker with cursor, context := contextOf file info }) := by
  unfold RestoringWalker.next Cursor.Walk.outcome
  cases advance walker.program walker.cursor with
  | error error cursor => rfl
  | ok found cursor => cases found <;> rfl

theorem advance_outcome {cursor : Cursor arch} (h : cursor.At program position) :
    (advance.outcome program cursor).2.At program (position.step program).2 ∧
      (advance.outcome program cursor).1.toOption.join = (position.outward program).map
        fun visit => (visit.frame.info, visit.position.file) := by
  obtain ⟨hresult, hat⟩ := h.step
  simp only [advance, Cursor.Walk.outcome_bind, Position.outward]
  generalize position.step program = stepped at hresult hat ⊢
  generalize Cursor.step.outcome program cursor = outcome at hresult hat ⊢
  obtain ⟨result, next⟩ := stepped
  obtain ⟨result', cursor'⟩ := outcome
  obtain rfl : result' = result := hresult
  rcases result' with error | _ | _
  · exact ⟨hat, rfl⟩
  · have hlook := Cursor.procInfo_outcome hat.knows
    have hfile : cursor'.file = next.file := congrArg Position.file hat.stands
    rw [hat.stands, Position.procInfo_eq] at hlook
    have hlooked : (cursor'.looked (next.frame program)).At program next := hat.looked
    simp only [Cursor.Walk.outcome_bind, hlook]
    generalize next.frame program = found at hlooked ⊢
    rcases found with error | _ | frame
    · exact ⟨hlooked, rfl⟩
    · exact ⟨hlooked, rfl⟩
    · exact ⟨hlooked, congrArg (fun file => some (frame.info, file)) hfile⟩
  · exact ⟨hat, rfl⟩

theorem advance_at {cursor : Cursor arch} (h : cursor.At program position)
    {info : ProcInfo} {file : RegisterFile arch}
    (advanced : (advance.outcome program cursor).1 = .ok (some (info, file))) :
    ∃ visit, position.outward program = some visit ∧ info = visit.frame.info ∧
      file = visit.position.file ∧
      (advance.outcome program cursor).2.At program visit.position := by
  obtain ⟨hat, hfound⟩ := advance_outcome h
  rw [advanced] at hfound
  obtain ⟨visit, houtward, hvisit⟩ := Option.map_eq_some_iff.mp hfound.symm
  cases hvisit
  rw [(Position.outward_eq_some.mp houtward).1] at hat
  exact ⟨visit, houtward, rfl, rfl, hat⟩

theorem at_next (h : walker.cursor.At walker.program position) :
    (FrameWalker.next walker).2.cursor.At walker.program (position.step walker.program).2 := by
  have hadvance := (advance_outcome h).1
  change (RestoringWalker.next walker).2.cursor.At walker.program _
  rw [next_eq]
  rcases hresult : advance.outcome walker.program walker.cursor with
    ⟨error | _ | found, cursor⟩ <;>
  · rw [hresult] at hadvance
    exact hadvance

theorem next_of_outward {visit : Visit arch} (h : walker.cursor.At walker.program position)
    (houtward : position.outward walker.program = some visit) :
    (FrameWalker.next walker).1 = .ok (some visit.walkFrame) := by
  have hadvance := (advance_outcome h).2
  change (RestoringWalker.next walker).1 = _
  rw [houtward] at hadvance
  rw [next_eq]
  rcases hresult : advance.outcome walker.program walker.cursor with
    ⟨error | _ | found, cursor⟩ <;> rw [hresult] at hadvance <;> cases hadvance
  rfl

theorem context_of_next (h : walker.cursor.At walker.program position) {frame : WalkFrame}
    (came : (FrameWalker.next walker).1 = .ok (some frame)) :
    ∃ visit, position.outward walker.program = some visit ∧ frame = visit.walkFrame ∧
      (FrameWalker.next walker).2.cursor.At walker.program visit.position ∧
      FrameWalker.context (FrameWalker.next walker).2 = visit.context := by
  change (RestoringWalker.next walker).1 = .ok (some frame) at came
  change ∃ visit, _ ∧ _ ∧ (RestoringWalker.next walker).2.cursor.At walker.program _ ∧
    (RestoringWalker.next walker).2.context = _
  rw [next_eq] at came ⊢
  rcases houtcome : advance.outcome walker.program walker.cursor with
    ⟨error | _ | ⟨info, file⟩, cursor⟩
  · rw [houtcome] at came
    cases came
  · rw [houtcome] at came
    cases came
  · obtain ⟨visit, houtward, rfl, rfl, hat⟩ := advance_at h (congrArg Prod.fst houtcome)
    rw [houtcome] at came hat
    cases came
    exact ⟨visit, houtward, rfl, hat, rfl⟩

theorem came_of_next (h : walker.cursor.At walker.program position) {frame : WalkFrame}
    (came : (FrameWalker.next walker).1 = .ok (some frame)) :
    ∃ visit, position.outward walker.program = some visit ∧ frame = visit.walkFrame ∧
      (FrameWalker.next walker).2.cursor.At walker.program visit.position := by
  obtain ⟨visit, houtward, hframe, hnext, -⟩ := context_of_next h came
  exact ⟨visit, houtward, hframe, hnext⟩

theorem kept_of_next (walker : RestoringWalker arch) :
    (FrameWalker.next walker).2.program = walker.program ∧
      (FrameWalker.next walker).2.origin = walker.origin := by
  change (RestoringWalker.next walker).2.program = walker.program ∧
    (RestoringWalker.next walker).2.origin = walker.origin
  rw [next_eq]
  rcases advance.outcome walker.program walker.cursor with ⟨error | _ | found, cursor⟩ <;>
    exact ⟨rfl, rfl⟩

theorem landing_of_next (walker : RestoringWalker arch) :
    (FrameWalker.next walker).2.landing = walker.landing := by
  change (RestoringWalker.next walker).2.landing = walker.landing
  rw [next_eq]
  rcases advance.outcome walker.program walker.cursor with ⟨error | _ | found, cursor⟩ <;> rfl

end RestoringWalker

end Unwinding
