import Unwinding.Proofs.Cursor.Walk
import Unwinding.Proofs.Protocol.Registered
import Unwinding.Proofs.Protocol.Round

/-!
# Writes that do not show

A walk that restores registers makes a new context for each frame that it comes to, and
looks at a context again only when its frame is installed. So a raise comes to the same
end whatever personalities write, as long as they answer alike and write alike where
they install a frame; and there only the last value counts that a register got which
the context has.
-/

namespace Unwinding

variable {arch : Arch}

open ContextWrite

namespace ContextWrite

/-- Two lists of writes leave the same in a context: they agree about the instruction
pointer and about the registers that the context has. -/
structure Alike (context : Context) (writes writes' : List ContextWrite) : Prop where
  ip : lastIp writes = lastIp writes'
  registers : ∀ r, (context.register? r).isSome → lastRegister r writes = lastRegister r writes'

theorem applyAll_congr {context : Context} {writes writes' : List ContextWrite}
    (h : Alike context writes writes') : applyAll context writes = applyAll context writes' := by
  have hregisters : (applyAll context writes).registers = (applyAll context writes').registers := by
    refine Vector.ext fun r hr => Option.some.inj ?_
    rw [← Vector.getElem?_eq_getElem, ← Vector.getElem?_eq_getElem, registers_applyAll,
      registers_applyAll]
    cases hregister : context.registers[r]? with
    | none => rfl
    | some register =>
      cases register with
      | absent => cases lastRegister r writes <;> cases lastRegister r writes' <;> rfl
      | kept value | written value =>
        rw [h.registers r (by rw [Context.register?, hregister]; rfl)]
  rw [applyAll_eq context writes, applyAll_eq context writes', h.ip, hregisters]

end ContextWrite

namespace Behaviour

/-- Two behaviours answer alike and do the same, and where they install a frame, they
write alike to its context. Elsewhere they may write what they like. -/
structure Alike {ω : Type} (behaviour behaviour' : Behaviour ω) : Prop where
  answers : ∀ address action exception context world,
    (behaviour address action exception context world).1 =
      (behaviour' address action exception context world).1
  worlds : ∀ address action exception context world,
    (behaviour address action exception context world).2.2 =
      (behaviour' address action exception context world).2.2
  writes : ∀ address action exception context world, action ≠ .search →
    (behaviour address action exception context world).1 = .installContext →
      ContextWrite.Alike context (behaviour address action exception context world).2.1
        (behaviour' address action exception context world).2.1

end Behaviour

namespace Unwind

open RestoringWalker Behaviour

variable {ω : Type} {behaviour behaviour' : Behaviour ω}
  {stop stop' : Word → Action → Word → Word → Routine (Exception × ω)}
  {unwind other : Unwind (RestoringWalker arch) ω} {budget : Nat}

/-- The unwind but for the context of the frame that it has come to. -/
def unseen (unwind : Unwind (RestoringWalker arch) ω) : Unwind (RestoringWalker arch) ω :=
  { unwind with walker := { unwind.walker with context := Context.blank } }

theorem next_context (walker : RestoringWalker arch) (context : Context) :
    (RestoringWalker.next { walker with context }).1 = (RestoringWalker.next walker).1 ∧
      { (RestoringWalker.next { walker with context }).2 with context := Context.blank } =
        { (RestoringWalker.next walker).2 with context := Context.blank } ∧
      ∀ frame, (RestoringWalker.next walker).1 = .ok (some frame) →
        (RestoringWalker.next { walker with context }).2 = (RestoringWalker.next walker).2 := by
  rw [RestoringWalker.next_eq, RestoringWalker.next_eq]
  dsimp only
  rcases advance.outcome walker.program walker.cursor with ⟨error | _ | found, cursor⟩
  · exact ⟨rfl, rfl, nofun⟩
  · exact ⟨rfl, rfl, nofun⟩
  · exact ⟨rfl, rfl, fun _ _ => rfl⟩

theorem next_unseen (same : unwind.unseen = other.unseen) :
    (FrameWalker.next unwind.walker).1 = (FrameWalker.next other.walker).1 ∧
      (after next unwind).unseen = (after next other).unseen ∧
      ∀ frame, (FrameWalker.next unwind.walker).1 = .ok (some frame) →
        after next unwind = after next other := by
  obtain ⟨⟨program, origin, cursor, context, landing⟩, phase, failure, exception, world⟩ := unwind
  obtain ⟨⟨_, _, _, context', _⟩, _, _, _, _⟩ := other
  cases same
  obtain ⟨hresult, hrest, hframe⟩ :=
    next_context ⟨program, origin, cursor, context', landing⟩ context
  let standing (walker : RestoringWalker arch) : Unwind (RestoringWalker arch) ω :=
    ⟨walker, phase, failure, exception, world⟩
  exact ⟨hresult, congrArg standing hrest,
    fun frame hcame => congrArg standing (hframe frame (hresult ▸ hcame))⟩

variable (stop stop') in
/-- A frame is asked in the same context, so that it answers alike. What it writes shows
only in the context, and where the frame is installed not even there. -/
theorem asked_unseen (alike : behaviour.Alike behaviour') (frame : WalkFrame) (action : Action)
    (same : after next unwind = after next other) :
    reply (behaviour.routines stop) (after next unwind) frame action =
        reply (behaviour'.routines stop') (after next other) frame action ∧
      (heard (behaviour.routines stop) unwind frame action).unseen =
        (heard (behaviour'.routines stop') other frame action).unseen ∧
      (action ≠ .search →
        reply (behaviour.routines stop) (after next unwind) frame action = .installContext →
        heard (behaviour.routines stop) unwind frame action =
          heard (behaviour'.routines stop') other frame action) := by
  unfold heard
  rw [same]
  generalize after next other = asked
  obtain ⟨id, _ | address⟩ := frame
  · exact ⟨rfl, rfl, fun _ _ => rfl⟩
  · let context := FrameWalker.context asked.walker
    have hworld := alike.worlds address action asked.exception context asked.world
    have hasked : ∀ behaviour : Behaviour ω, ∀ stop,
        after (askPersonality (behaviour.routines stop) ⟨id, some address⟩ action) asked =
          { asked with
            walker := FrameWalker.setContext asked.walker (applyAll context
              (behaviour address action asked.exception context asked.world).2.1)
            world := (behaviour address action asked.exception context asked.world).2.2 } :=
      fun _ _ => rfl
    refine ⟨alike.answers .., ?_, fun hsearch hinstall => ?_⟩
    · rw [hasked, hasked, hworld]
      rfl
    · have hwrites := applyAll_congr (alike.writes address action asked.exception context
        asked.world hsearch hinstall)
      rw [hasked, hasked, hworld, hwrites]

variable (stop stop') in
theorem searchFrames_unseen (alike : behaviour.Alike behaviour') (budget : Nat)
    (same : unwind.unseen = other.unseen) :
    (searchFrames (behaviour.routines stop) budget unwind).map (Prod.map id unseen) =
      (searchFrames (behaviour'.routines stop') budget other).map (Prod.map id unseen) := by
  induction budget generalizing unwind other with
  | zero => rfl
  | succ budget ih =>
    obtain ⟨hresult, hafter, hframe⟩ := next_unseen same
    rw [searchFrames_succ, searchFrames_succ, ← hresult]
    rcases hnext : (FrameWalker.next unwind.walker).1 with error | _ | frame
    · exact congrArg (fun unwind => some (_, unwind)) hafter
    · exact congrArg (fun unwind => some (_, unwind)) hafter
    · obtain ⟨hreply, hheard, -⟩ :=
        asked_unseen stop stop' alike frame .search (hframe frame hnext)
      dsimp only
      rw [← hreply]
      split
      · exact congrArg (fun unwind => some (_, unwind)) hheard
      split
      · exact ih hheard
      · exact congrArg (fun unwind => some (_, unwind)) hheard

variable (stop stop') in
theorem cleanupFrames_unseen (alike : behaviour.Alike behaviour') (budget : Nat) (handler : Word)
    (same : unwind.unseen = other.unseen) :
    (cleanupFrames (behaviour.routines stop) handler budget unwind).map (Prod.map id unseen) =
      (cleanupFrames (behaviour'.routines stop') handler budget other).map
        (Prod.map id unseen) := by
  induction budget generalizing unwind other with
  | zero => rfl
  | succ budget ih =>
    obtain ⟨hresult, hafter, hframe⟩ := next_unseen same
    rw [cleanupFrames_succ, cleanupFrames_succ, ← hresult]
    rcases hnext : (FrameWalker.next unwind.walker).1 with error | _ | frame
    · exact congrArg (fun unwind => some (_, unwind)) hafter
    · exact congrArg (fun unwind => some (_, unwind)) hafter
    · obtain ⟨hreply, hheard, hinstalled⟩ :=
        asked_unseen stop stop' alike frame (frame.duty handler) (hframe frame hnext)
      dsimp only
      rw [← hreply]
      split
      · next hinstall =>
        rw [hinstalled (by unfold WalkFrame.duty; split <;> decide) hinstall]
      split
      · exact ih hheard
      · exact congrArg (fun unwind => some (_, unwind)) hheard

theorem unseen_cases {α : Type} {ended ended' : Option (α × Unwind (RestoringWalker arch) ω)}
    (h : ended.map (Prod.map id unseen) = ended'.map (Prod.map id unseen)) :
    ended = none ∧ ended' = none ∨ ∃ result unwind unwind', ended = some (result, unwind) ∧
      ended' = some (result, unwind') ∧ unwind.unseen = unwind'.unseen := by
  rcases ended with _ | ⟨result, unwind⟩ <;> rcases ended' with _ | ⟨result', unwind'⟩
  · exact .inl ⟨rfl, rfl⟩
  · cases h
  · cases h
  · obtain ⟨rfl, hsame⟩ := Prod.mk.inj (Option.some.inj h)
    exact .inr ⟨_, _, _, rfl, rfl, hsame⟩

theorem cleanup_unseen (alike : behaviour.Alike behaviour') (same : unwind.unseen = other.unseen) :
    (cleanup (behaviour.routines stop) budget unwind).map (Prod.map id unseen) =
      (cleanup (behaviour'.routines stop') budget other).map (Prod.map id unseen) := by
  have hexception : unwind.exception = other.exception :=
    (congrArg Unwind.exception same :)
  have hcleaning : (cleaning unwind).unseen = (cleaning other).unseen :=
    (congrArg cleaning same :)
  rw [cleanup_eq, cleanup_eq, hexception, orFail_eq, orFail_eq]
  rcases unseen_cases (cleanupFrames_unseen stop stop' alike budget other.exception.target
    hcleaning) with
    ⟨hnone, hnone'⟩ | ⟨error | answer, ended, ended', hended, hended', hsame⟩
  · rw [hnone, hnone']
  · rw [hended, hended']
    exact congrArg (fun unwind => some (Reason.fatalPhase2Error, failed error unwind)) hsame
  · rw [hended, hended']
    exact congrArg (fun unwind => some (answer, unwind)) hsame

/-- Only what is written where a frame is installed shows in what a raise comes to. -/
theorem raise_unseen (alike : behaviour.Alike behaviour') :
    (raise (behaviour.routines stop) budget unwind).map (Prod.map id unseen) =
      (raise (behaviour'.routines stop') budget unwind).map (Prod.map id unseen) := by
  rw [raise_eq, raise_eq]
  rcases unseen_cases (searchFrames_unseen stop stop' alike budget
    (rfl : (searching unwind).unseen = _)) with
    ⟨hnone, hnone'⟩ | ⟨error | _ | handler, ended, ended', hended, hended', hsame⟩
  · rw [hnone, hnone']
  · rw [hended, hended']
    exact congrArg (fun unwind => some (Reason.fatalPhase1Error, failed error unwind)) hsame
  · rw [hended, hended']
    exact congrArg (fun unwind => some (Reason.endOfStack, enter .noHandler unwind)) hsame
  · rw [hended, hended']
    exact cleanup_unseen alike (congrArg (chosen handler) hsame)

end Unwind

end Unwinding
