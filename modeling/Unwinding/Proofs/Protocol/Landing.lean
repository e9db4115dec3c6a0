import Unwinding.Proofs.Protocol.Landed
import Unwinding.Proofs.Protocol.Place
import Unwinding.Proofs.Protocol.Unseen

/-!
# Where a raise lands

A raise that installs a frame lands with the registers that the walk restores for the
frame from those it began with, and what the personality of the frame wrote to them in
the call that installed it. Nothing else that was written shows, and a frame can be
installed whatever was written to it.
-/

namespace Unwinding

variable {arch : Arch}

open ContextWrite

namespace Behaviour

variable {ω : Type} (behaviour : Behaviour ω) (program : Program) (exception : Exception)

/-- What comes of asking a frame. One without a personality lets every exception pass. -/
def hear (action : Action) (visit : Visit arch) (world : ω) : Reason × List ContextWrite × ω :=
  match visit.walkFrame.personality with
  | none => (.continueUnwind, [], world)
  | some address => behaviour address action exception visit.context world

/-- The first phase finds a handler outside of a position. -/
inductive Finds : Position arch → ω → Word → ω → Prop where
  | found {position : Position arch} {visit : Visit arch} {writes : List ContextWrite}
    {world world' : ω} (came : position.outward program = some visit)
    (answer : behaviour.hear exception .search visit world = (.handlerFound, writes, world')) :
    Finds position world visit.walkFrame.id world'
  | passed {position : Position arch} {visit : Visit arch} {writes : List ContextWrite}
    {handler : Word} {world world' world'' : ω} (came : position.outward program = some visit)
    (answer : behaviour.hear exception .search visit world = (.continueUnwind, writes, world'))
    (rest : Finds visit.position world' handler world'') :
    Finds position world handler world''

/-- The second phase outside of a position lands with these registers, or it fails. It
fails where the walk ends before the handler or a personality answers badly, and nowhere
else. -/
inductive Lands (handler : Word) :
    Position arch → ω → Option (RegisterFile arch) → ω → Prop where
  | installed {position : Position arch} {visit : Visit arch} {writes : List ContextWrite}
    {world world' : ω} (came : position.outward program = some visit)
    (answer : behaviour.hear exception (visit.walkFrame.duty handler) visit world =
      (.installContext, writes, world')) :
    Lands handler position world
      (some (visit.position.file.landed visit.frame.info.argsSize writes)) world'
  | left {position : Position arch} {visit : Visit arch} {writes : List ContextWrite}
    {landing : Option (RegisterFile arch)} {world world' world'' : ω}
    (came : position.outward program = some visit) (other : visit.walkFrame.id ≠ handler)
    (answer : behaviour.hear exception (visit.walkFrame.duty handler) visit world =
      (.continueUnwind, writes, world'))
    (rest : Lands handler visit.position world' landing world'') :
    Lands handler position world landing world''
  | refused {position : Position arch} {visit : Visit arch} {reason : Reason}
    {writes : List ContextWrite} {world world' : ω}
    (came : position.outward program = some visit)
    (answer : behaviour.hear exception (visit.walkFrame.duty handler) visit world =
      (reason, writes, world'))
    (fatal : reason ≠ .installContext ∧
      (reason = .continueUnwind → visit.walkFrame.id = handler)) :
    Lands handler position world none world'
  | lost {position : Position arch} {world : ω} (ended : position.outward program = none) :
    Lands handler position world none world

end Behaviour

namespace Unwind

open RestoringWalker Behaviour

variable {ω : Type} {behaviour : Behaviour ω}
  {stop : Word → Action → Word → Word → Routine (Exception × ω)}
  {program : Program} {position : Position arch} {visit : Visit arch} {handler : Word}
  {unwind unwind' : Unwind (RestoringWalker arch) ω} {budget : Nat}

/-- The unwind when the next frame was asked, and what it wrote and did. -/
def told (unwind : Unwind (RestoringWalker arch) ω) (visit : Visit arch)
    (done : List ContextWrite × ω) : Unwind (RestoringWalker arch) ω :=
  { unwind with
    walker := { (FrameWalker.next unwind.walker).2 with
      context := applyAll visit.context done.1 }
    world := done.2 }

variable (behaviour stop) in
theorem heard_visit (action : Action)
    (seen : FrameWalker.context (FrameWalker.next unwind.walker).2 = visit.context) :
    reply (behaviour.routines stop) (after next unwind) visit.walkFrame action =
        (behaviour.hear unwind.exception action visit unwind.world).1 ∧
      heard (behaviour.routines stop) unwind visit.walkFrame action =
        told unwind visit (behaviour.hear unwind.exception action visit unwind.world).2 := by
  have hnext : after next unwind = told unwind visit ([], unwind.world) := by
    unfold told
    rw [← seen]
    rfl
  unfold heard hear
  rw [hnext]
  generalize visit.walkFrame = frame
  obtain ⟨id, _ | address⟩ := frame <;> exact ⟨rfl, rfl⟩

theorem stands_told (stands : Stands program position unwind.walker)
    (came : position.outward program = some visit) (done : List ContextWrite × ω) :
    Stands program visit.position (told unwind visit done).walker := by
  obtain ⟨hwalks, hat⟩ := stands
  subst hwalks
  have hnext := at_next hat
  rw [(Position.outward_eq_some.mp came).1] at hnext
  exact ⟨(kept_of_next unwind.walker).1, hnext⟩

theorem next_cases (stands : Stands program position unwind.walker) :
    (∃ visit, position.outward program = some visit ∧
      (FrameWalker.next unwind.walker).1 = .ok (some visit.walkFrame) ∧
      FrameWalker.context (FrameWalker.next unwind.walker).2 = visit.context) ∨
    position.outward program = none ∧
      ((∃ error, (FrameWalker.next unwind.walker).1 = .error error) ∨
        (FrameWalker.next unwind.walker).1 = .ok none) := by
  obtain ⟨hwalks, hat⟩ := stands
  subst hwalks
  cases houtward : position.outward unwind.walker.program with
  | some visit =>
    have hnext := next_of_outward hat houtward
    obtain ⟨visit', houtward', -, -, hcontext⟩ := context_of_next hat hnext
    cases houtward.symm.trans houtward'
    exact .inl ⟨visit, rfl, hnext, hcontext⟩
  | none =>
    rcases hnext : (FrameWalker.next unwind.walker).1 with error | _ | frame
    · exact .inr ⟨rfl, .inl ⟨error, rfl⟩⟩
    · exact .inr ⟨rfl, .inr rfl⟩
    · obtain ⟨visit, houtward', -⟩ := context_of_next hat hnext
      cases houtward.symm.trans houtward'

/-- What the first phase keeps of an unwind. -/
structure Searches (unwind unwind' : Unwind (RestoringWalker arch) ω) : Prop where
  program : unwind'.walker.program = unwind.walker.program
  origin : unwind'.walker.origin = unwind.walker.origin
  landing : unwind'.walker.landing = unwind.walker.landing
  exception : unwind'.exception = unwind.exception

theorem searches_next (unwind : Unwind (RestoringWalker arch) ω) :
    Searches unwind (after next unwind) where
  program := (kept_of_next unwind.walker).1
  origin := (kept_of_next unwind.walker).2
  landing := landing_of_next unwind.walker
  exception := rfl

theorem searches_told (done : List ContextWrite × ω) :
    Searches unwind (told unwind visit done) where
  program := (searches_next unwind).program
  origin := (searches_next unwind).origin
  landing := (searches_next unwind).landing
  exception := rfl

theorem Searches.trans {unwind'' : Unwind (RestoringWalker arch) ω} (h : Searches unwind unwind')
    (h' : Searches unwind' unwind'') : Searches unwind unwind'' where
  program := h'.program.trans h.program
  origin := h'.origin.trans h.origin
  landing := h'.landing.trans h.landing
  exception := h'.exception.trans h.exception

theorem searchFrames_finds {result : Except WalkError (Option Word)}
    (stands : Stands program position unwind.walker)
    (ran : searchFrames (behaviour.routines stop) budget unwind = some (result, unwind')) :
    Searches unwind unwind' ∧ ∀ handler, result = .ok (some handler) →
      behaviour.Finds program unwind.exception position unwind.world handler unwind'.world := by
  induction budget generalizing unwind position with
  | zero => cases ran
  | succ budget ih =>
    rw [searchFrames_succ] at ran
    rcases next_cases stands with ⟨visit, came, hnext, hcontext⟩ | ⟨-, hnext⟩
    · obtain ⟨hreply, hheard⟩ := heard_visit behaviour stop .search hcontext
      rw [hnext] at ran
      dsimp only at ran
      rw [hreply, hheard] at ran
      obtain ⟨⟨reason, done⟩, answer⟩ :
          ∃ answer, behaviour.hear unwind.exception .search visit unwind.world = answer := ⟨_, rfl⟩
      rw [answer] at ran
      dsimp only at ran
      split at ran
      · next hfound =>
        cases ran
        refine ⟨searches_told done, fun handler hhandler => ?_⟩
        cases hhandler
        exact .found came (hfound ▸ answer)
      split at ran
      · next hcontinue =>
        obtain ⟨hkept, hfinds⟩ := ih (stands_told stands came done) ran
        exact ⟨(searches_told done).trans hkept, fun handler hhandler =>
          .passed came (hcontinue ▸ answer) (hfinds handler hhandler)⟩
      · cases ran
        exact ⟨searches_told done, nofun⟩
    · rcases hnext with ⟨error, hnext⟩ | hnext <;> rw [hnext] at ran <;> cases ran <;>
        exact ⟨searches_next unwind, nofun⟩

theorem install_told (stands : Stands program position unwind.walker)
    (came : position.outward program = some visit) (done : List ContextWrite × ω) :
    FrameWalker.install (told unwind visit done).walker =
      (.ok (), { (told unwind visit done).walker with
        landing := some (visit.position.file.landed visit.frame.info.argsSize done.1) }) := by
  have hfile : (told unwind visit done).walker.cursor.file = visit.position.file :=
    congrArg Position.file (stands_told stands came done).cursor.stands
  have hwritten := written_applyAll visit.position.file visit.frame.info done.1
  have hcontext : (told unwind visit done).walker.context =
      applyAll (contextOf visit.position.file visit.frame.info) done.1 := rfl
  change RestoringWalker.install (told unwind visit done).walker = _
  unfold RestoringWalker.install
  rw [hfile, hcontext, hwritten]
  rfl

theorem lands_of_install (stands : Stands program position unwind.walker)
    (came : position.outward program = some visit) {done : List ContextWrite × ω}
    (answer : behaviour.hear unwind.exception (visit.walkFrame.duty handler) visit unwind.world =
      (.installContext, done)) :
    behaviour.Lands program unwind.exception handler position unwind.world
        (after install (told unwind visit done)).walker.landing done.2 ∧
      (after install (told unwind visit done)).walker.landing.isSome = true := by
  have hlanding : (after install (told unwind visit done)).walker.landing =
      some (visit.position.file.landed visit.frame.info.argsSize done.1) := by
    change (FrameWalker.install (told unwind visit done).walker).2.landing = _
    rw [install_told stands came done]
  rw [hlanding]
  exact ⟨.installed came answer, rfl⟩

theorem cleanupFrames_lands {result : Except WalkError Reason}
    (stands : Stands program position unwind.walker) (fresh : unwind.walker.landing = none)
    (ran : cleanupFrames (behaviour.routines stop) handler budget unwind =
      some (result, unwind')) :
    behaviour.Lands program unwind.exception handler position unwind.world unwind'.walker.landing
        unwind'.world ∧
      (unwind'.walker.landing.isSome = true ↔ result = .ok .installContext) := by
  induction budget generalizing unwind position with
  | zero => cases ran
  | succ budget ih =>
    rw [cleanupFrames_succ] at ran
    rcases next_cases stands with ⟨visit, came, hnext, hcontext⟩ | ⟨ended, hnext⟩
    · obtain ⟨hreply, hheard⟩ :=
        heard_visit behaviour stop (visit.walkFrame.duty handler) hcontext
      rw [hnext] at ran
      dsimp only at ran
      rw [hreply, hheard] at ran
      obtain ⟨⟨reason, done⟩, answer⟩ : ∃ answer,
        behaviour.hear unwind.exception (visit.walkFrame.duty handler) visit unwind.world =
          answer := ⟨_, rfl⟩
      rw [answer, install_told stands came done] at ran
      dsimp only at ran
      split at ran
      · next hinstall =>
        obtain ⟨hlands, hlanded⟩ := lands_of_install stands came (hinstall ▸ answer)
        split at ran <;> cases ran <;> exact ⟨hlands, iff_of_true hlanded rfl⟩
      split at ran
      · next hleft =>
        obtain ⟨hcontinue, hother⟩ := hleft
        obtain ⟨hlands, hreason⟩ := ih (stands_told stands came done)
          ((landing_of_next unwind.walker).trans fresh) ran
        exact ⟨.left came hother (hcontinue ▸ answer) hlands, hreason⟩
      · next hinstall hrefused =>
        cases ran
        have hnone : (told unwind visit done).walker.landing = none :=
          (landing_of_next unwind.walker).trans fresh
        rw [hnone]
        exact ⟨.refused came answer ⟨hinstall, fun hcontinue =>
          not_not.mp fun hother => hrefused ⟨hcontinue, hother⟩⟩, iff_of_false nofun nofun⟩
    · have hnone : (after next unwind).walker.landing = none :=
        (landing_of_next unwind.walker).trans fresh
      rcases hnext with ⟨error, hnext⟩ | hnext <;> rw [hnext] at ran <;> cases ran <;>
        exact hnone ▸ ⟨.lost ended, iff_of_false nofun nofun⟩

theorem cleanup_lands {reason : Reason}
    (ran : cleanup (behaviour.routines stop) budget unwind = some (reason, unwind')) :
    behaviour.Lands unwind.walker.program unwind.exception unwind.exception.target
        (Position.start unwind.walker.origin) unwind.world unwind'.walker.landing unwind'.world ∧
      (unwind'.walker.landing.isSome = true ↔ reason = .installContext) := by
  rw [cleanup_eq] at ran
  have hstands := stands_rewind unwind.walker
  rcases orFail_cases ran with hrun | ⟨error, walked, hrun, rfl, rfl⟩
  · obtain ⟨hlands, hreason⟩ := cleanupFrames_lands hstands rfl hrun
    exact ⟨hlands, hreason.trans (by rw [Except.ok.injEq])⟩
  · obtain ⟨hlands, hreason⟩ := cleanupFrames_lands hstands rfl hrun
    exact ⟨hlands, hreason.trans (iff_of_false nofun nofun)⟩

theorem raise_lands {reason : Reason}
    (ran : raise (behaviour.routines stop) budget unwind = some (reason, unwind')) :
    (unwind'.walker.landing.isSome = true ↔ reason = .installContext) ∧
      (reason = .installContext ∨ reason = .fatalPhase2Error → ∃ handler world,
        behaviour.Finds unwind.walker.program { unwind.exception with stop := 0, target := 0 }
          (Position.start unwind.walker.origin) unwind.world handler world ∧
        behaviour.Lands unwind.walker.program
          { unwind.exception with stop := 0, target := handler } handler
          (Position.start unwind.walker.origin) world unwind'.walker.landing unwind'.world) := by
  rw [raise_eq] at ran
  have hstands : Stands unwind.walker.program (Position.start unwind.walker.origin)
      (searching unwind).walker := stands_rewind unwind.walker
  have hnowhere : ∀ {result searched},
      searchFrames (behaviour.routines stop) budget (searching unwind) =
      some (result, searched) → ¬ searched.walker.landing.isSome = true := by
    intro result searched hsearch
    have hnone : searched.walker.landing = none := (searchFrames_finds hstands hsearch).1.landing
    rw [hnone]
    exact Bool.false_ne_true
  rcases hsearch : searchFrames (behaviour.routines stop) budget (searching unwind) with
    _ | ⟨error | _ | handler, searched⟩ <;> rw [hsearch] at ran
  · cases ran
  · cases ran
    have hlanding := hnowhere hsearch
    exact ⟨iff_of_false hlanding (by decide), fun h => absurd h (by decide)⟩
  · cases ran
    have hlanding := hnowhere hsearch
    exact ⟨iff_of_false hlanding (by decide), fun h => absurd h (by decide)⟩
  · obtain ⟨hkept, hfinds⟩ := searchFrames_finds hstands hsearch
    obtain ⟨hlands, hreason⟩ := cleanup_lands ran
    refine ⟨hreason, fun _ => ⟨handler, searched.world, hfinds handler rfl, ?_⟩⟩
    have hprogram : searched.walker.program = unwind.walker.program := hkept.program
    have horigin : searched.walker.origin = unwind.walker.origin := hkept.origin
    have hexception : ({ searched.exception with target := handler } : Exception) =
        { unwind.exception with stop := 0, target := handler } := by
      rw [hkept.exception]
      rfl
    rw [← hprogram, ← horigin, ← hexception]
    exact hlands

/-- Every raise that installs a frame lands with the registers of the frame, in which
each has the value that was written to it last in the call that installed it. A frame can
be installed whatever was written to it: the second phase fails only where it loses the
handler or a personality answers badly. What is written in any other call, and what is
written to registers that a context does not have, has no effect on what a raise comes to,
and on nothing that it leaves but the context itself. -/
theorem raise_landed (arch : Arch) :
    (∀ (file : RegisterFile arch) (info : ProcInfo) (writes : List ContextWrite),
      written file (applyAll (contextOf file info) writes) =
        .ok (file.landed info.argsSize writes)) ∧
    ∀ {ω : Type} (behaviour : Behaviour ω)
      (stop : Word → Action → Word → Word → Routine (Exception × ω))
      (budget : Nat) (unwind : Unwind (RestoringWalker arch) ω),
      (∀ reason unwind', raise (behaviour.routines stop) budget unwind = some (reason, unwind') →
        (unwind'.walker.landing.isSome = true ↔ reason = .installContext) ∧
        (reason = .installContext ∨ reason = .fatalPhase2Error → ∃ handler world,
          behaviour.Finds unwind.walker.program { unwind.exception with stop := 0, target := 0 }
            (Position.start unwind.walker.origin) unwind.world handler world ∧
          behaviour.Lands unwind.walker.program
            { unwind.exception with stop := 0, target := handler } handler
            (Position.start unwind.walker.origin) world unwind'.walker.landing unwind'.world)) ∧
      ∀ behaviour' : Behaviour ω, behaviour.Alike behaviour' →
        (raise (behaviour.routines stop) budget unwind).map (Prod.map id unseen) =
          (raise (behaviour'.routines stop) budget unwind).map (Prod.map id unseen) :=
  ⟨written_applyAll, fun _ _ _ _ => ⟨fun _ _ => raise_lands, fun _ => raise_unseen⟩⟩

/-- The fourth function has pushed 16 bytes of arguments when it calls the first. -/
def pushingProgram : Program :=
  .ofObjects { interruptedMemory with
      regions := ⟨0x1000b5, [0x2e, 0x10]⟩ :: interruptedMemory.regions : Snapshot }.space
    [⟨0x4000, 0x10000, ⟨none, some (0x100000, 0xbc), none, .unknown⟩⟩]

def pushing : Unwind (RestoringWalker .aarch64) Unit :=
  start (RestoringWalker.start pushingProgram (raiserFile 0x700300)) ⟨0x71000000, 0, 0, 0⟩ ()

/-- Personalities that handle every exception, and write this when they search and that
when they install. -/
def handlesWriting (searching installing : List ContextWrite) : Behaviour Unit :=
  fun _ action _ _ world =>
    if action = .search then (.handlerFound, searching, world)
    else (.installContext, installing, world)

theorem alike_handlesWriting {searching searching' installing installing' : List ContextWrite}
    (h : ∀ context, ContextWrite.Alike context installing installing') :
    (handlesWriting searching installing).Alike (handlesWriting searching' installing') where
  answers _ action _ _ _ := by cases action <;> rfl
  worlds _ action _ _ _ := by cases action <;> rfl
  writes _ action _ context _ hsearch _ := by
    simpa only [handlesWriting, if_neg hsearch] using h context

/-- A routine that hands over two registers and the stack pointer, names a landing pad,
and also writes what does not show: an earlier value, the column of the instruction
pointer, and registers that there are not. -/
def handsOver : Behaviour Unit :=
  handlesWriting [.register 0 0xbad, .ip 0xbad] [.register 0 0xbad, .register 32 0xbad,
    .register 64 0xbad, .register (-1) 0xbad, .register 0 0x71000000, .register 1 2,
    .register 31 0x700000, .ip 0x7104]

theorem raise_landed_pushing :
    (∃ unwind', raise (handsOver.routines handlesAll.stop) 4 pushing =
        some (.installContext, unwind') ∧
      (unwind'.walker.landing.map fun file => (file.ip, file.sp, file.getD 0, file.getD 1)) =
        some (0x7104, 0x700010, 0x71000000, 2) ∧
      ∃ handler world,
        handsOver.Finds pushingProgram ⟨0x71000000, 0, 0, 0⟩ (Position.start (raiserFile 0x700300))
          () handler world ∧
        handsOver.Lands pushingProgram ⟨0x71000000, 0, 0, handler⟩ handler
          (Position.start (raiserFile 0x700300)) world unwind'.walker.landing ()) ∧
      (raise (handsOver.routines handlesAll.stop) 4 pushing).map (Prod.map id unseen) =
        (raise ((handlesWriting [] [.ip 0x7104, .register 31 0x700000, .register 1 2,
          .register 0 0x71000000, .register 32 0xbad]).routines handlesAll.stop) 4 pushing).map
            (Prod.map id unseen) := by
  obtain ⟨hraise, hunseen⟩ :=
    (raise_landed .aarch64).2 handsOver handlesAll.stop 4 pushing
  refine ⟨?_, hunseen _ ?_⟩
  · have hran : (raise (handsOver.routines handlesAll.stop) 4 pushing).map (fun ended =>
        (ended.1, ended.2.walker.landing.map fun file =>
          (file.ip, file.sp, file.getD 0, file.getD 1))) =
        some (.installContext, some (0x7104, 0x700010, 0x71000000, 2)) := by
      decide +kernel
    obtain ⟨⟨reason, unwind'⟩, ran, hend⟩ := Option.map_eq_some_iff.mp hran
    obtain ⟨rfl, hlanding⟩ := Prod.mk.inj hend
    exact ⟨unwind', ran, hlanding, (hraise _ unwind' ran).2 (.inl rfl)⟩
  · refine alike_handlesWriting fun context => ⟨rfl, fun r hr => ?_⟩
    have hlt : r < 64 := by
      by_contra hlarge
      simp [Context.register?, hlarge] at hr
    have hlast : ∀ r : Fin 64,
        lastRegister r [.register 0 0xbad, .register 32 0xbad, .register 64 0xbad,
          .register (-1) 0xbad, .register 0 0x71000000, .register 1 2, .register 31 0x700000,
          .ip 0x7104] =
        lastRegister r [.ip 0x7104, .register 31 0x700000, .register 1 2,
          .register 0 0x71000000, .register 32 0xbad] := by
      decide +kernel
    exact hlast ⟨r, hlt⟩

end Unwind

end Unwinding
