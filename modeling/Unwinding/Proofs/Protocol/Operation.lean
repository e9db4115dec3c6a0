import Unwinding.Protocol

/-!
# The operations of the protocol, opened

An operation is written in a monad in which a walk may fail and a budget may be
used up. What an operation begins with and how it goes on is said here by equations
between unwinds, so that no other module has to open the monad. A routine may write
the words of the exception; where it matters that none does, routines are asked to
be discreet.
-/

namespace Unwinding

/-- The words of an exception that are the protocol's own. -/
def Exception.words (exception : Exception) : Word × Word := (exception.stop, exception.target)

/-- The routine leaves the words of the exception alone. -/
def Routine.Discreet {ω : Type} (routine : Routine (Exception × ω)) : Prop :=
  ∀ context exception world, (routine context (exception, world)).2.2.1.words = exception.words

/-- No personality writes the words of an exception. -/
def Routines.Discreet {ω : Type} (routines : Routines ω) : Prop :=
  ∀ address action, Routine.Discreet (routines.personality address action)

theorem Routine.discreet_reading {ω : Type} (routine : Exception → Routine ω) :
    Routine.Discreet (.reading routine) :=
  fun _ _ _ => rfl

namespace Unwind

section Monad

variable {W ω α β : Type}

/-- The unwind that a part of an operation leaves. -/
def after (walk : Walk W ω α) (unwind : Unwind W ω) : Unwind W ω :=
  match walk unwind with
  | some (_, unwind) => unwind
  | none => unwind

/-- The unwind whose walk has failed. -/
def failed (error : WalkError) (unwind : Unwind W ω) : Unwind W ω :=
  { unwind with failure := error.failure, phase := .fatalError }

theorem walk_bind (walk : Walk W ω α) (rest : α → Walk W ω β) (unwind : Unwind W ω) :
    (walk >>= rest) unwind =
      match walk unwind with
      | none => none
      | some (.ok a, unwind') => rest a unwind'
      | some (.error error, unwind') => some (.error error, unwind') := by
  simp only [bind, ExceptT.bind, ExceptT.mk, StateT.bind, ExceptT.bindCont]
  cases walk unwind with
  | none => rfl
  | some pair =>
    obtain ⟨result, unwind'⟩ := pair
    cases result <;> rfl

theorem bind_ok {walk : Walk W ω α} {rest : α → Walk W ω β} {unwind unwind' : Unwind W ω} {a : α}
    (h : walk unwind = some (.ok a, unwind')) : (walk >>= rest) unwind = rest a unwind' := by
  rw [walk_bind, h]

theorem orFail_ok {walk : Walk W ω Reason} {unwind unwind' : Unwind W ω} {answer : Reason}
    (h : walk unwind = some (.ok answer, unwind')) (reason : Reason) :
    orFail walk reason unwind = some (answer, unwind') := by
  simp only [orFail, bind, StateT.bind, ExceptT.run, h]
  rfl

theorem orFail_error {walk : Walk W ω Reason} {unwind unwind' : Unwind W ω} {error : WalkError}
    (h : walk unwind = some (.error error, unwind')) (reason : Reason) :
    orFail walk reason unwind = some (reason, failed error unwind') := by
  simp only [orFail, bind, StateT.bind, ExceptT.run, h]
  rfl

theorem orFail_eq (walk : Walk W ω Reason) (reason : Reason) (unwind : Unwind W ω) :
    orFail walk reason unwind = (walk unwind).map fun (result, unwind') =>
      match result with
      | .ok answer => (answer, unwind')
      | .error error => (reason, failed error unwind') := by
  rcases hrun : walk unwind with _ | ⟨error | answer, unwind'⟩
  · simp only [orFail, bind, StateT.bind, ExceptT.run, hrun]
    rfl
  · exact orFail_error hrun reason
  · exact orFail_ok hrun reason

theorem orFail_cases {walk : Walk W ω Reason} {reason answer : Reason}
    {unwind unwind' : Unwind W ω} (h : orFail walk reason unwind = some (answer, unwind')) :
    walk unwind = some (.ok answer, unwind') ∨
      ∃ error walked, walk unwind = some (.error error, walked) ∧ answer = reason ∧
        unwind' = failed error walked := by
  rw [orFail_eq] at h
  obtain ⟨⟨result, walked⟩, hwalk, h⟩ := Option.map_eq_some_iff.mp h
  cases result with
  | ok answer' =>
    cases h
    exact .inl hwalk
  | error error =>
    cases h
    exact .inr ⟨error, walked, hwalk, rfl, rfl⟩

end Monad

variable {W ω : Type} [FrameWalker W]

theorem next_eq (unwind : Unwind W ω) :
    next unwind = some ((FrameWalker.next unwind.walker).1, after next unwind) := rfl

theorem unwoundPast_eq (unwind : Unwind W ω) :
    unwoundPast unwind =
      some ((FrameWalker.unwoundPast unwind.walker).1, after unwoundPast unwind) := rfl

theorem install_eq (unwind : Unwind W ω) :
    install unwind = some ((FrameWalker.install unwind.walker).1, after install unwind) := rfl

theorem call_eq (routine : Routine (Exception × ω)) (unwind : Unwind W ω) :
    call routine unwind =
      let (reason, context, exception, world) :=
        routine (FrameWalker.context unwind.walker) (unwind.exception, unwind.world)
      some (.ok reason, { unwind with
        walker := FrameWalker.setContext unwind.walker context
        exception := { exception with address := unwind.exception.address }
        world }) := rfl

/-! ## What the operations begin with -/

/-- The first phase begins. -/
def searching (unwind : Unwind W ω) : Unwind W ω :=
  rewound (enter .searching (marked 0 0 unwind))

/-- The second phase begins. -/
def cleaning (unwind : Unwind W ω) : Unwind W ω := rewound (enter .cleaningUp unwind)

/-- The first phase has found a handler. -/
def chosen (handler : Word) (unwind : Unwind W ω) : Unwind W ω :=
  aimed handler (enter (.handlerFound handler) unwind)

theorem cleanup_eq (routines : Routines ω) (budget : Nat) (unwind : Unwind W ω) :
    cleanup routines budget unwind =
      orFail (cleanupFrames routines unwind.exception.target budget) .fatalPhase2Error
        (cleaning unwind) := rfl

theorem raise_eq (routines : Routines ω) (budget : Nat) (unwind : Unwind W ω) :
    raise routines budget unwind =
      match searchFrames routines budget (searching unwind) with
      | none => none
      | some (.error error, unwind') => some (.fatalPhase1Error, failed error unwind')
      | some (.ok none, unwind') => some (.endOfStack, enter .noHandler unwind')
      | some (.ok (some handler), unwind') => cleanup routines budget (chosen handler unwind') := by
  have hsearch : (search routines budget).run (marked 0 0 unwind) =
      searchFrames routines budget (searching unwind) := rfl
  change Option.bind ((search routines budget).run (marked 0 0 unwind)) _ = _
  rw [hsearch]
  rcases searchFrames routines budget (searching unwind) with _ | ⟨error | _ | handler, unwind'⟩ <;>
    rfl

theorem force_eq (routines : Routines ω) (budget : Nat) (unwind : Unwind W ω) :
    force routines budget unwind =
      orFail (forceFrames routines unwind.exception budget) .fatalPhase2Error
        (cleaning unwind) := rfl

theorem forced_eq (routines : Routines ω) (stop argument : Word) (budget : Nat)
    (unwind : Unwind W ω) :
    forced routines stop argument budget unwind =
      force routines budget (marked stop argument unwind) := rfl

theorem resume_eq (routines : Routines ω) (budget : Nat) (unwind : Unwind W ω) :
    resume routines budget unwind =
      if unwind.exception.stop = 0 then cleanup routines budget unwind
      else force routines budget unwind := by
  change (if unwind.exception.stop = 0 then cleanup routines budget
    else force routines budget) unwind = _
  split <;> rfl

theorem resumeOrRethrow_eq (routines : Routines ω) (budget : Nat) (unwind : Unwind W ω) :
    resumeOrRethrow routines budget unwind =
      if unwind.exception.stop = 0 then raise routines budget unwind
      else resume routines budget unwind := by
  change (if unwind.exception.stop = 0 then raise routines budget
    else resume routines budget) unwind = _
  split <;> rfl

end Unwind

end Unwinding
