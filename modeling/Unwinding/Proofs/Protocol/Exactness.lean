import Unwinding.Proofs.Protocol.Place

/-!
# Which instruction pointers are reported as exact

An instruction pointer is exact where a signal interrupted the frame, and a return
address everywhere else on the way outward: it depends on how the frame further in was
entered. A routine is told of the frame itself whether a signal entered it. So the two
are one frame apart, and a routine is told rightly of a frame just when a signal entered
either both of the frame and the one further in, or neither.
-/

namespace Unwinding

variable {arch : Arch} {program : Program} {origin : RegisterFile arch}

namespace Visit

/-- What a routine that is called on the frame is told agrees with where the rules of
the frame are looked up. -/
def Reported (visit : Visit arch) : Prop := visit.context.signalFrame = visit.position.exactIp

end Visit

namespace Position

variable {position : Position arch} {inner : Frame} {visit : Visit arch}

theorem exactIp_iff_lookupPc : position.exactIp = true ↔ position.lookupPc = position.file.ip := by
  unfold lookupPc
  cases position.exactIp with
  | true => exact iff_of_true rfl rfl
  | false =>
    refine iff_of_false Bool.false_ne_true fun hsame => ?_
    rw [if_neg Bool.false_ne_true] at hsame
    have hone : position.file.ip - 1 + 1 = position.file.ip := UInt64.sub_add_cancel _ _
    rw [hsame] at hone
    have hzero : (1 : Word) = 0 := UInt64.add_eq_left.mp hone
    exact absurd hzero (by decide)

theorem frame_of_outward (h : position.outward program = some visit) :
    ∃ inner, position.frame program = .ok (some inner) := by
  obtain ⟨hstep, -⟩ := outward_eq_some.mp h
  rcases hframe : position.frame program with error | _ | inner
  · rw [step_of_lost hframe] at hstep
    cases (Prod.mk.inj hstep).1
  · rw [step_of_no_frame hframe] at hstep
    cases (Prod.mk.inj hstep).1
  · exact ⟨inner, rfl⟩

theorem exactIp_of_outward (hframe : position.frame program = .ok (some inner))
    (h : position.outward program = some visit) :
    visit.position.exactIp = inner.info.signalFrame := by
  obtain ⟨hstep, -⟩ := outward_eq_some.mp h
  rw [step_of_frame hframe, apply_of_outward hframe h] at hstep
  rw [← (Prod.mk.inj hstep).2]

theorem reported_iff_of_outward (hframe : position.frame program = .ok (some inner))
    (h : position.outward program = some visit) :
    visit.Reported ↔ visit.frame.info.signalFrame = inner.info.signalFrame := by
  rw [Visit.Reported, exactIp_of_outward hframe h]
  exact Iff.rfl

/-- A walk is reported rightly just when all its frames are entered like the one it
begins in. -/
theorem reported_visits_iff (hframe : position.frame program = .ok (some inner)) (count : Nat) :
    (∀ visit ∈ position.visits program count, visit.Reported) ↔
      ∀ visit ∈ position.visits program count,
        visit.frame.info.signalFrame = inner.info.signalFrame := by
  induction count generalizing position inner with
  | zero => simp [visits]
  | succ count ih =>
    cases houtward : position.outward program with
    | none => simp [visits, houtward]
    | some visit =>
      rw [visits_succ _ houtward, List.forall_mem_cons, List.forall_mem_cons,
        reported_iff_of_outward hframe houtward, ih (outward_eq_some.mp houtward).2]
      exact and_congr_right fun hfirst => by rw [hfirst]

end Position

namespace RestoringWalker

open Cursor (At)

variable {walker walker' : RestoringWalker arch} {position : Position arch} {frame : WalkFrame}

theorem Stands.leads {calls : List ProtocolCall} (h : Stands program position walker)
    (leads : Leads walker calls walker') : ∃ position', Stands program position' walker' := by
  induction leads generalizing position with
  | nil => exact ⟨position, h⟩
  | cons moves rest ih =>
    obtain ⟨hwalks, hat⟩ := h
    cases moves with
    | rewind => exact ih ⟨hwalks, Cursor.at_start _⟩
    | next =>
      subst hwalks
      exact ih ⟨(kept_of_next _).1, at_next hat⟩
    | install => exact ih ⟨(kept_of_install _).1.trans hwalks, cursor_of_install _ ▸ hat⟩
    | unwoundPast | personality | stop => exact ih ⟨hwalks, hat⟩

/-- How a walker comes to `frame`, and what a routine is told of it then. -/
structure Tells (program : Program) (walker : RestoringWalker arch) (frame : WalkFrame)
    (inner : Frame) (visit : Visit arch) : Prop where
  left : walker.cursor.position.frame program = .ok (some inner)
  came : walker.cursor.position.outward program = some visit
  frame : frame = visit.walkFrame
  stands : (FrameWalker.next walker).2.cursor.position = visit.position
  context : FrameWalker.context (FrameWalker.next walker).2 = visit.context

theorem tells_of_next (h : Stands program position walker)
    (came : (FrameWalker.next walker).1 = .ok (some frame)) :
    ∃ inner visit, Tells program walker frame inner visit := by
  obtain ⟨hwalks, hat⟩ := h
  subst hwalks
  obtain ⟨visit, houtward, hframe, hnext, hcontext⟩ := context_of_next hat came
  obtain ⟨inner, hinner⟩ := Position.frame_of_outward houtward
  rw [← hat.stands] at houtward hinner
  exact ⟨inner, visit, hinner, houtward, hframe, hnext.stands, hcontext⟩

/-- Of every frame that a walker comes to, whatever was done with it before, a routine is
told whether a signal entered the frame, while its address is exact if a signal entered
the frame further in. What is told is right just when these are the same; and of all
frames of a walk it is right just when all are like the frame that the walk begins in. -/
theorem reported_iff (program : Program) (origin : RegisterFile arch) :
    (∀ (calls : List ProtocolCall) (walker : RestoringWalker arch) (frame : WalkFrame),
      Leads (start program origin) calls walker →
      (FrameWalker.next walker).1 = .ok (some frame) →
      ∃ inner visit, Tells program walker frame inner visit ∧
        (visit.position.exactIp = true ↔ visit.position.lookupPc = visit.context.ip) ∧
        visit.position.exactIp = inner.info.signalFrame ∧
        visit.context.signalFrame = visit.frame.info.signalFrame ∧
        (visit.Reported ↔ visit.frame.info.signalFrame = inner.info.signalFrame)) ∧
    ∀ (inner : Frame) (count : Nat), (Position.start origin).frame program = .ok (some inner) →
      ((∀ visit ∈ (Position.start origin).visits program count, visit.Reported) ↔
        ∀ visit ∈ (Position.start origin).visits program count,
          visit.frame.info.signalFrame = inner.info.signalFrame) := by
  refine ⟨fun calls walker frame leads came => ?_,
    fun inner count hframe => Position.reported_visits_iff hframe count⟩
  have hstart : Stands program (Position.start origin) (start program origin) :=
    ⟨rfl, Cursor.at_start origin⟩
  obtain ⟨position, hstands⟩ := hstart.leads leads
  obtain ⟨inner, visit, htells⟩ := tells_of_next hstands came
  exact ⟨inner, visit, htells, Position.exactIp_iff_lookupPc,
    Position.exactIp_of_outward htells.left htells.came, rfl,
    Position.reported_iff_of_outward htells.left htells.came⟩

open Unwind (interruptedProgram raiserFile)

/-- The raiser has been called, and its caller is told of rightly. -/
theorem reported_iff_called :
    (∃ inner visit, Tells interruptedProgram (start interruptedProgram (raiserFile 0x700300))
        ⟨0x700320, some 0x70000020⟩ inner visit ∧ visit.Reported) ∧
      ((Position.start (raiserFile 0x700300)).visits interruptedProgram 4).length = 1 ∧
      ∀ visit ∈ (Position.start (raiserFile 0x700300)).visits interruptedProgram 4,
        visit.Reported := by
  obtain ⟨hfirst, hwalk⟩ := reported_iff interruptedProgram (raiserFile 0x700300)
  have hraiser : ((Position.start (raiserFile 0x700300)).frame interruptedProgram).map
      (·.map (·.info.signalFrame)) = .ok (some false) := by
    decide +kernel
  have hvisits : ∀ visit ∈ (Position.start (raiserFile 0x700300)).visits interruptedProgram 4,
      visit.frame.info.signalFrame = false := by
    decide +kernel
  obtain ⟨found, hframe, hfound⟩ := Outcome.map_eq_ok.mp hraiser
  obtain ⟨raiser, rfl, hentered⟩ := Option.map_eq_some_iff.mp hfound
  have hreported := (hwalk raiser 4 hframe).mpr fun visit hvisit => by
    rw [hvisits visit hvisit, hentered]
  refine ⟨?_, by decide +kernel, hreported⟩
  obtain ⟨inner, visit, htells, -, -, -, -⟩ :=
    hfirst [] (start interruptedProgram (raiserFile 0x700300)) ⟨0x700320, some 0x70000020⟩
      (.nil _) (by decide +kernel)
  have houtward : (Position.start (raiserFile 0x700300)).outward interruptedProgram = some visit :=
    htells.came
  have hcame : visit ∈ (Position.start (raiserFile 0x700300)).visits interruptedProgram 4 := by
    rw [Position.visits_succ 3 houtward]
    exact List.mem_cons_self
  exact ⟨inner, visit, htells, hreported visit hcame⟩

/-- Where a signal has interrupted the third function, the address of the function that
returns from the signal is reported as exact, and that of the third as a return address. -/
theorem interrupted_misreported :
    ((Position.start (raiserFile 0x700000)).visits interruptedProgram 3).map (fun visit =>
        (visit.position.exactIp, visit.context.signalFrame)) =
      [(false, true), (true, false), (false, false)] ∧
    (¬ ∀ visit ∈ (Position.start (raiserFile 0x700000)).visits interruptedProgram 3,
        visit.Reported) ∧
    (Unwind.backtrace (fun context seen =>
          (.noReason, context, seen ++ [(context.ip, context.signalFrame)])) 4
        (Unwind.start (start interruptedProgram (raiserFile 0x700000)) ⟨0x71000000, 0, 0, 0⟩
          [])).map (fun (reason, unwind) => (reason, unwind.world)) =
      some (.endOfStack, [(0x5000, true), (0x6008, false), (0x7020, false)]) := by
  have hflags : ((Position.start (raiserFile 0x700000)).visits interruptedProgram 3).map
      (fun visit => (visit.position.exactIp, visit.context.signalFrame)) =
        [(false, true), (true, false), (false, false)] := by
    decide +kernel
  refine ⟨hflags, fun hreported => ?_, by decide +kernel⟩
  have hsame : ∀ flags ∈ ((Position.start (raiserFile 0x700000)).visits interruptedProgram 3).map
      (fun visit => (visit.position.exactIp, visit.context.signalFrame)), flags.2 = flags.1 :=
    List.forall_mem_map.mpr hreported
  rw [hflags] at hsame
  exact absurd (hsame (false, true) List.mem_cons_self) (by decide)

end RestoringWalker

end Unwinding
