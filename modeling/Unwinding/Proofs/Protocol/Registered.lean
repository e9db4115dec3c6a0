import Unwinding.Proofs.Protocol.Operation
import Unwinding.Proofs.Protocol.Written

/-!
# Raising over registered functions

The walk over registered functions takes them off their stack while it goes on.
What is left of the stack when a raise has ended is said here for all stacks and
for all personalities, which answer and write to contexts as they like: it can be
read off the place where the raise ended, and the writes of the last personality
that was asked are the only ones that show.
-/

namespace Unwinding

/-- What personalities do that leave the exception alone: they answer, write to the
context, and change their own state. All may depend on what they see. -/
abbrev Behaviour (ω : Type) :=
  (address : Word) → Action → Exception → Context → ω → Reason × List ContextWrite × ω

namespace Behaviour

variable {ω : Type}

/-- Personalities that behave so, and any stop function. -/
def routines (behaviour : Behaviour ω)
    (stop : Word → Action → Word → Word → Routine (Exception × ω)) : Routines ω where
  personality address action := .reading fun exception context world =>
    let (reason, writes, world) := behaviour address action exception context world
    (reason, ContextWrite.applyAll context writes, world)
  stop := stop

theorem discreet_routines (behaviour : Behaviour ω)
    (stop : Word → Action → Word → Word → Routine (Exception × ω)) :
    (behaviour.routines stop).Discreet :=
  fun _ _ => Routine.discreet_reading _

/-- What comes of asking a registered function. One without a personality lets
every exception pass. -/
def ask (behaviour : Behaviour ω) (action : Action) (exception : Exception)
    (function : FunctionContext) (world : ω) : Reason × List ContextWrite × ω :=
  match function.personality with
  | none => (.continueUnwind, [], world)
  | some address =>
    behaviour address action exception (RegisteredWalker.contextOf function) world

/-- All of these functions are asked, from the last one on, and let the exception
pass. -/
inductive Passes (behaviour : Behaviour ω) (action : Action) (exception : Exception) :
    List FunctionContext → ω → ω → Prop where
  | nil (world : ω) : Passes behaviour action exception [] world world
  | outward {function : FunctionContext} {functions : List FunctionContext}
    {writes : List ContextWrite} {world world' world'' : ω}
    (answer : behaviour.ask action exception function world = (.continueUnwind, writes, world'))
    (rest : Passes behaviour action exception functions world' world'') :
    Passes behaviour action exception (functions ++ [function]) world world''

/-- The functions inside of `function` are passed, and then `function`, with
`outer` further out, is asked and gives an answer. -/
def Reaches (behaviour : Behaviour ω) (passed asked : Action) (exception : Exception)
    (functions : List FunctionContext) (world : ω) (outer : List FunctionContext)
    (function : FunctionContext) (answer : Reason × List ContextWrite × ω) : Prop :=
  ∃ inner world', functions = outer ++ function :: inner ∧
    behaviour.Passes passed exception inner world world' ∧
    behaviour.ask asked exception function world' = answer

/-- A function is known by its depth. -/
def depthName (outer : List FunctionContext) : Word := UInt64.ofNat outer.length

/-- The first phase: it ends at the first function that does not let the exception
pass. -/
inductive Searched (behaviour : Behaviour ω) (exception : Exception)
    (functions : List FunctionContext) (world : ω) : Except WalkError (Option Word) → ω → Prop where
  | nobody {world' : ω} (passes : behaviour.Passes .search exception functions world world') :
    Searched behaviour exception functions world (.ok none) world'
  | found {outer : List FunctionContext} {function : FunctionContext} {writes : List ContextWrite}
    {world' : ω}
    (reaches : behaviour.Reaches .search .search exception functions world outer function
      (.handlerFound, writes, world')) :
    Searched behaviour exception functions world (.ok (some (depthName outer))) world'
  | refused {outer : List FunctionContext} {function : FunctionContext} {reason : Reason}
    {writes : List ContextWrite} {world' : ω}
    (reaches : behaviour.Reaches .search .search exception functions world outer function
      (reason, writes, world'))
    (fatal : reason ≠ .handlerFound ∧ reason ≠ .continueUnwind) :
    Searched behaviour exception functions world (.error (.personality 1 reason)) world'

/-- The second phase, with what is left of the functions and the one that is landed
in: it ends at the first function that does not let the exception pass, at the
handler at the latest. -/
inductive CleanedUp (behaviour : Behaviour ω) (exception : Exception) (handler : Word)
    (functions : List FunctionContext) (world : ω) :
    Reason → List FunctionContext → Option FunctionContext → Prop where
  | installContext {outer : List FunctionContext} {function : FunctionContext}
    {writes : List ContextWrite} {world' : ω}
    (reaches : behaviour.Reaches .cleanup (if depthName outer = handler then .handle else .cleanup)
      exception functions world outer function (.installContext, writes, world')) :
    CleanedUp behaviour exception handler functions world .installContext
      (outer ++ [function.resumed writes]) (some (function.resumed writes))
  | fatalPhase2Error {outer : List FunctionContext} {function : FunctionContext} {reason : Reason}
    {writes : List ContextWrite} {world' : ω}
    (reaches : behaviour.Reaches .cleanup (if depthName outer = handler then .handle else .cleanup)
      exception functions world outer function (reason, writes, world'))
    (fatal : reason ≠ .installContext ∧ (reason = .continueUnwind → depthName outer = handler)) :
    CleanedUp behaviour exception handler functions world .fatalPhase2Error
      (outer ++ [function]) none

/-- A raise: what it answers, what it leaves of the functions, and the one that is
landed in. The exception remembers no words in the first phase and the handler in
the second. -/
inductive Raised (behaviour : Behaviour ω) (exception : Exception)
    (functions : List FunctionContext) (world : ω) :
    Reason → List FunctionContext → Option FunctionContext → Prop where
  | endOfStack {world' : ω}
    (searched : behaviour.Searched { exception with stop := 0, target := 0 } functions world
      (.ok none) world') :
    Raised behaviour exception functions world .endOfStack functions none
  | fatalPhase1Error {error : WalkError} {world' : ω}
    (searched : behaviour.Searched { exception with stop := 0, target := 0 } functions world
      (.error error) world') :
    Raised behaviour exception functions world .fatalPhase1Error functions none
  | secondPhase {handler : Word} {world' : ω} {reason : Reason} {left : List FunctionContext}
    {landing : Option FunctionContext}
    (searched : behaviour.Searched { exception with stop := 0, target := 0 } functions world
      (.ok (some handler)) world')
    (cleanedUp : behaviour.CleanedUp { exception with stop := 0, target := handler } handler
      functions world' reason left landing) :
    Raised behaviour exception functions world reason left landing

section Outward

variable {behaviour : Behaviour ω} {exception : Exception} {functions outer : List FunctionContext}
  {function next : FunctionContext} {world world' world'' : ω} {writes : List ContextWrite}

theorem Reaches.first {passed asked : Action} {answer : Reason × List ContextWrite × ω}
    (h : behaviour.ask asked exception function world = answer) :
    behaviour.Reaches passed asked exception (functions ++ [function]) world functions function
      answer :=
  ⟨[], world, rfl, .nil world, h⟩

theorem Reaches.outward {passed asked : Action} {answer : Reason × List ContextWrite × ω}
    (passes : behaviour.ask passed exception next world = (.continueUnwind, writes, world'))
    (h : behaviour.Reaches passed asked exception functions world' outer function answer) :
    behaviour.Reaches passed asked exception (functions ++ [next]) world outer function answer := by
  obtain ⟨inner, world'', rfl, hinner, hanswer⟩ := h
  exact ⟨inner ++ [next], world'', by simp, .outward passes hinner, hanswer⟩

theorem Searched.outward {result : Except WalkError (Option Word)}
    (passes : behaviour.ask .search exception next world = (.continueUnwind, writes, world'))
    (h : behaviour.Searched exception functions world' result world'') :
    behaviour.Searched exception (functions ++ [next]) world result world'' := by
  cases h with
  | nobody hpasses => exact .nobody (.outward passes hpasses)
  | found reaches => exact .found (reaches.outward passes)
  | refused reaches fatal => exact .refused (reaches.outward passes) fatal

theorem CleanedUp.outward {handler : Word} {reason : Reason} {left : List FunctionContext}
    {landing : Option FunctionContext}
    (passes : behaviour.ask .cleanup exception next world = (.continueUnwind, writes, world'))
    (h : behaviour.CleanedUp exception handler functions world' reason left landing) :
    behaviour.CleanedUp exception handler (functions ++ [next]) world reason left landing := by
  cases h with
  | installContext reaches => exact .installContext (reaches.outward passes)
  | fatalPhase2Error reaches fatal => exact .fatalPhase2Error (reaches.outward passes) fatal

theorem Searched.handler_named {handler : Word}
    (h : behaviour.Searched exception functions world (.ok (some handler)) world') :
    ∃ depth, depth < functions.length ∧ UInt64.ofNat depth = handler := by
  cases h with
  | @found outer function writes _ reaches =>
    obtain ⟨inner, _, rfl, -, -⟩ := reaches
    exact ⟨outer.length, by simp, rfl⟩

end Outward

end Behaviour

namespace RegisteredWalker

/-- The walk has these functions before it, the last of them next. -/
structure Before (walker : RegisteredWalker) (functions : List FunctionContext) : Prop where
  contexts : functions <+: walker.stack.contexts
  outward : walker.outward = ContextStack.top ⟨functions⟩

end RegisteredWalker

namespace Unwind

open RegisteredWalker Behaviour

variable {ω : Type} {behaviour : Behaviour ω}
  {stop : Word → Action → Word → Word → Routine (Exception × ω)}
  {unwind : Unwind RegisteredWalker ω} {function : FunctionContext} {outer functions : List FunctionContext}

/-- The unwind when a function was asked, and what it wrote and did. -/
def visited (unwind : Unwind RegisteredWalker ω) (outer : List FunctionContext)
    (function : FunctionContext) (done : List ContextWrite × ω) : Unwind RegisteredWalker ω :=
  { unwind with
    walker := { unwind.walker with
      position := some outer.length
      context := ContextWrite.applyAll (contextOf function) done.1 }
    world := done.2 }

theorem next_outermost (h : unwind.walker.Before []) : next unwind = some (.ok none, unwind) := by
  have houtward : unwind.walker.outward = none := h.outward
  have hnext : FrameWalker.next unwind.walker = (.ok none, unwind.walker) := by
    change RegisteredWalker.next unwind.walker = _
    simp only [RegisteredWalker.next, houtward]
  simp only [next, act, hnext]

theorem getElem?_of_before (h : outer ++ [function] <+: functions) :
    functions[outer.length]? = some function := by
  obtain ⟨inner, rfl⟩ := h
  simp

theorem next_outward (h : unwind.walker.Before (outer ++ [function])) :
    next unwind = some (.ok (some ⟨depthName outer, function.personality⟩),
      visited unwind outer function ([], unwind.world)) := by
  have houtward : unwind.walker.outward = some outer.length := by
    rw [h.outward, ContextStack.top, ContextStack.length, List.length_append]
    rfl
  have hnext : FrameWalker.next unwind.walker =
      (.ok (some ⟨depthName outer, function.personality⟩),
        { unwind.walker with position := some outer.length, context := contextOf function }) := by
    change RegisteredWalker.next unwind.walker = _
    simp only [RegisteredWalker.next, houtward, ContextStack.get, getElem?_of_before h.contexts,
      depthName]
  simp only [next, act, hnext]
  rfl

theorem ask_visited (action : Action) (id : Word) :
    askPersonality (behaviour.routines stop) ⟨id, function.personality⟩ action
      (visited unwind outer function ([], unwind.world)) =
      some (.ok (behaviour.ask action unwind.exception function unwind.world).1,
        visited unwind outer function
          (behaviour.ask action unwind.exception function unwind.world).2) := by
  unfold ask
  cases hpersonality : function.personality <;> rfl

theorem before_visited {done : List ContextWrite × ω}
    (h : unwind.walker.Before (outer ++ [function])) :
    (visited unwind outer function done).walker.Before outer where
  contexts := (List.prefix_append outer [function]).trans h.contexts
  outward := by
    cases outer <;> rfl

variable (behaviour stop)

theorem searchFrames_outward (budget : Nat) (h : unwind.walker.Before (outer ++ [function])) :
    searchFrames (behaviour.routines stop) (budget + 1) unwind =
      (match (behaviour.ask .search unwind.exception function unwind.world).1 with
        | .handlerFound => pure (some (depthName outer))
        | .continueUnwind => searchFrames (behaviour.routines stop) budget
        | reason => throw (.personality 1 reason) : Walk RegisteredWalker ω (Option Word))
      (visited unwind outer function
        (behaviour.ask .search unwind.exception function unwind.world).2) := by
  rw [searchFrames, bind_ok (next_outward h)]
  exact bind_ok (ask_visited .search (depthName outer))

theorem searchFrames_registered {budget : Nat} (h : unwind.walker.Before functions)
    (enough : functions.length < budget) :
    ∃ result unwind',
      searchFrames (behaviour.routines stop) budget unwind = some (result, unwind') ∧
      unwind'.walker.stack = unwind.walker.stack ∧
      unwind'.walker.landing = unwind.walker.landing ∧ unwind'.exception = unwind.exception ∧
      behaviour.Searched unwind.exception functions unwind.world result unwind'.world := by
  obtain ⟨budget, rfl⟩ := Nat.exists_eq_add_one_of_ne_zero (Nat.ne_of_gt (Nat.zero_lt_of_lt enough))
  induction functions using List.reverseRecOn generalizing unwind budget with
  | nil =>
    refine ⟨.ok none, unwind, ?_, rfl, rfl, rfl, .nobody (.nil _)⟩
    rw [searchFrames, bind_ok (next_outermost h)]
    rfl
  | append_singleton outer function ih =>
    have hrun := searchFrames_outward behaviour stop budget h
    obtain ⟨⟨reason, done⟩, answer⟩ :
        ∃ answer, behaviour.ask .search unwind.exception function unwind.world = answer := ⟨_, rfl⟩
    rw [answer] at hrun
    by_cases hcontinue : reason = .continueUnwind
    · subst hcontinue
      rw [List.length_append, List.length_singleton] at enough
      obtain ⟨budget, rfl⟩ := Nat.exists_eq_add_one_of_ne_zero (show budget ≠ 0 by omega)
      have houter : (visited unwind outer function done).walker.Before outer := before_visited h
      obtain ⟨result, unwind', hrest, hstack, hlanding, hexception, hsearched⟩ :=
        ih houter budget (by omega)
      exact ⟨result, unwind', hrun.trans hrest, hstack, hlanding, hexception,
        hsearched.outward answer⟩
    · by_cases hfound : reason = .handlerFound
      · subst hfound
        exact ⟨_, _, hrun, rfl, rfl, rfl, .found (.first answer)⟩
      · refine ⟨.error (.personality 1 reason), visited unwind outer function done, ?_, rfl, rfl,
          rfl, .refused (.first answer) ⟨hfound, hcontinue⟩⟩
        rw [hrun]
        cases reason <;> first | rfl | contradiction

/-! ## The second phase -/

theorem modify_concat {α : Type} (l : List α) (a : α) (f : α → α) :
    (l ++ [a]).modify l.length f = l ++ [f a] := by
  induction l with
  | nil => rfl
  | cons b l ih =>
    rw [List.cons_append, List.length_cons, List.modify_succ_cons, ih, List.cons_append]

theorem install_visited {done : List ContextWrite × ω}
    (h : unwind.walker.stack = ⟨outer ++ [function]⟩) :
    install (visited unwind outer function done) = some (.ok (),
      { visited unwind outer function done with
        walker := { (visited unwind outer function done).walker with
          stack := ⟨outer ++ [function.resumed done.1]⟩
          landing := some (function.resumed done.1) } }) := by
  have hstack : (visited unwind outer function done).walker.stack = ⟨outer ++ [function]⟩ := h
  have hposition : (visited unwind outer function done).walker.position = some outer.length := rfl
  have hcontext : (visited unwind outer function done).walker.context =
    ContextWrite.applyAll (contextOf function) done.1 := rfl
  generalize visited unwind outer function done = current at hstack hposition hcontext
  have hinstall : FrameWalker.install current.walker = (.ok (), { current.walker with
      stack := ⟨outer ++ [function.resumed done.1]⟩
      landing := some (function.resumed done.1) }) := by
    change RegisteredWalker.install current.walker = _
    have htake : (outer ++ [function.resumed done.1]).take (outer.length + 1) =
        outer ++ [function.resumed done.1] := List.take_of_length_le (by simp)
    simp [RegisteredWalker.install, hposition, ContextStack.get, hstack, hcontext, written_applyAll,
      ContextStack.modify, ContextStack.truncate, modify_concat, htake]
  simp only [install, act, hinstall]

theorem leave_visited {done : List ContextWrite × ω}
    (h : unwind.walker.stack = ⟨outer ++ [function]⟩) :
    unwoundPast (visited unwind outer function done) = some (.ok (),
      { visited unwind outer function done with
        walker := { (visited unwind outer function done).walker with stack := ⟨outer⟩ } }) := by
  have hstack : (visited unwind outer function done).walker.stack = ⟨outer ++ [function]⟩ := h
  have hposition : (visited unwind outer function done).walker.position = some outer.length := rfl
  generalize visited unwind outer function done = current at hstack hposition
  have hleave : FrameWalker.unwoundPast current.walker =
      (.ok (), { current.walker with stack := ⟨outer⟩ }) := by
    change RegisteredWalker.unwoundPast current.walker = _
    simp [RegisteredWalker.unwoundPast, hposition, hstack, ContextStack.truncate]
  simp only [unwoundPast, act, hleave]

theorem before_leave {done : List ContextWrite × ω} :
    ({ (visited unwind outer function done).walker with stack := ⟨outer⟩ } :
      RegisteredWalker).Before outer where
  contexts := List.prefix_rfl
  outward := by
    cases outer <;> rfl

theorem cleanupFrames_outward (budget : Nat) (handler : Word)
    (h : unwind.walker.Before (outer ++ [function])) {action : Action}
    (haction : action = if depthName outer = handler then .handle else .cleanup) :
    cleanupFrames (behaviour.routines stop) handler (budget + 1) unwind =
      (match (behaviour.ask action unwind.exception function unwind.world).1 with
        | .installContext => do
          install
          if depthName outer = handler then modify (enter .complete)
          return .installContext
        | .continueUnwind =>
          if depthName outer = handler then throw (.personality 2 .continueUnwind)
          else do
            unwoundPast
            cleanupFrames (behaviour.routines stop) handler budget
        | reason => throw (.personality 2 reason) : Walk RegisteredWalker ω Reason)
      (visited unwind outer function
        (behaviour.ask action unwind.exception function unwind.world).2) := by
  rw [cleanupFrames, bind_ok (next_outward h)]
  simp only [decide_eq_true_eq, ← haction]
  exact bind_ok (ask_visited action (depthName outer))

theorem cleanupFrames_registered {budget : Nat} {handler : Word}
    (h : unwind.walker.Before functions) (hstack : unwind.walker.stack = ⟨functions⟩)
    (hlanding : unwind.walker.landing = none)
    (hhandler : ∃ depth, depth < functions.length ∧ UInt64.ofNat depth = handler)
    (enough : functions.length < budget) :
    ∃ result unwind', cleanupFrames (behaviour.routines stop) handler budget unwind =
        some (result, unwind') ∧
      behaviour.CleanedUp unwind.exception handler functions unwind.world
        (match result with
          | .ok reason => reason
          | .error _ => .fatalPhase2Error)
        unwind'.walker.stack.contexts unwind'.walker.landing := by
  obtain ⟨budget, rfl⟩ := Nat.exists_eq_add_one_of_ne_zero (Nat.ne_of_gt (Nat.zero_lt_of_lt enough))
  induction functions using List.reverseRecOn generalizing unwind budget with
  | nil =>
    obtain ⟨depth, hlt, -⟩ := hhandler
    exact absurd hlt (Nat.not_lt_zero depth)
  | append_singleton outer function ih =>
    have hrun := cleanupFrames_outward behaviour stop budget handler h rfl
    obtain ⟨⟨reason, done⟩, answer⟩ : ∃ answer, behaviour.ask
        (if depthName outer = handler then .handle else .cleanup) unwind.exception function
        unwind.world = answer := ⟨_, rfl⟩
    rw [answer] at hrun
    dsimp only at hrun
    by_cases hinstall : reason = .installContext
    · subst hinstall
      have hlanded := hrun.trans (bind_ok (install_visited hstack))
      have hcleaned : behaviour.CleanedUp unwind.exception handler (outer ++ [function])
          unwind.world .installContext (outer ++ [function.resumed done.1])
          (some (function.resumed done.1)) :=
        .installContext (.first answer)
      by_cases hat : depthName outer = handler
      · rw [if_pos hat] at hlanded
        exact ⟨.ok .installContext, _, hlanded, hcleaned⟩
      · rw [if_neg hat] at hlanded
        exact ⟨.ok .installContext, _, hlanded, hcleaned⟩
    · by_cases hpass : reason = .continueUnwind ∧ depthName outer ≠ handler
      · obtain ⟨rfl, hother⟩ := hpass
        dsimp only at hrun
        rw [if_neg hother] at hrun answer
        rw [List.length_append, List.length_singleton] at enough hhandler
        obtain ⟨depth, hlt, hname⟩ := hhandler
        have hdepth : depth ≠ outer.length := by
          rintro rfl
          exact hother hname
        obtain ⟨budget, rfl⟩ := Nat.exists_eq_add_one_of_ne_zero (show budget ≠ 0 by omega)
        let left : Unwind RegisteredWalker ω := { visited unwind outer function done with
          walker := { (visited unwind outer function done).walker with stack := ⟨outer⟩ } }
        have houter : left.walker.Before outer := before_leave
        obtain ⟨result, unwind', hrest, hcleaned⟩ :=
          ih houter rfl hlanding ⟨depth, by omega, hname⟩ budget (by omega)
        exact ⟨result, unwind', hrun.trans ((bind_ok (leave_visited hstack)).trans hrest),
          hcleaned.outward answer⟩
      · have hlast : reason = .continueUnwind → depthName outer = handler := fun hcontinue =>
          not_not.mp fun hother => hpass ⟨hcontinue, hother⟩
        refine ⟨.error (.personality 2 reason), visited unwind outer function done, ?_, ?_⟩
        · rw [hrun]
          cases reason with
          | installContext => exact absurd rfl hinstall
          | continueUnwind =>
            dsimp only
            rw [if_pos (hlast rfl)]
            rfl
          | _ => rfl
        · change behaviour.CleanedUp unwind.exception handler (outer ++ [function]) unwind.world
            .fatalPhase2Error unwind.walker.stack.contexts unwind.walker.landing
          rw [hstack, hlanding]
          exact .fatalPhase2Error (.first answer) ⟨hinstall, hlast⟩

theorem before_rewind (walker : RegisteredWalker) : walker.rewind.Before walker.stack.contexts where
  contexts := List.prefix_rfl
  outward := rfl

theorem cleanup_registered {budget : Nat} {handler : Word}
    (htarget : unwind.exception.target = handler)
    (hhandler : ∃ depth, depth < unwind.walker.stack.length ∧ UInt64.ofNat depth = handler)
    (enough : unwind.walker.stack.length < budget) :
    ∃ reason unwind', cleanup (behaviour.routines stop) budget unwind = some (reason, unwind') ∧
      behaviour.CleanedUp unwind.exception handler unwind.walker.stack.contexts unwind.world reason
        unwind'.walker.stack.contexts unwind'.walker.landing := by
  subst htarget
  rw [cleanup_eq]
  have hbefore : (cleaning unwind).walker.Before unwind.walker.stack.contexts :=
    before_rewind unwind.walker
  obtain ⟨result, unwind', hrun, hcleaned⟩ :=
    cleanupFrames_registered behaviour stop hbefore rfl rfl hhandler enough
  cases result with
  | ok reason => exact ⟨reason, unwind', orFail_ok hrun .fatalPhase2Error, hcleaned⟩
  | error error => exact ⟨.fatalPhase2Error, _, orFail_error hrun .fatalPhase2Error, hcleaned⟩

/-- A raise over registered functions always ends. What is left of the functions,
and the one that is landed in, are as the place where it ended says. -/
theorem raise_registered (behaviour : Behaviour ω)
    (stop : Word → Action → Word → Word → Routine (Exception × ω))
    (unwind : Unwind RegisteredWalker ω) {budget : Nat} (enough : unwind.walker.stack.length < budget) :
    ∃ reason unwind', raise (behaviour.routines stop) budget unwind = some (reason, unwind') ∧
      behaviour.Raised unwind.exception unwind.walker.stack.contexts unwind.world reason
        unwind'.walker.stack.contexts unwind'.walker.landing := by
  rw [raise_eq]
  have hbefore : (searching unwind).walker.Before unwind.walker.stack.contexts :=
    before_rewind unwind.walker
  obtain ⟨result, unwind', hrun, hstack, hlanding, hexception, hsearched⟩ :=
    searchFrames_registered behaviour stop hbefore enough
  have hstack' : unwind'.walker.stack = unwind.walker.stack := hstack
  have hlanding' : unwind'.walker.landing = none := hlanding
  rw [hrun]
  cases hresult : result with
  | error error =>
    refine ⟨_, _, rfl, ?_⟩
    change behaviour.Raised _ _ _ _ unwind'.walker.stack.contexts unwind'.walker.landing
    rw [hstack', hlanding']
    exact .fatalPhase1Error (hresult ▸ hsearched)
  | ok found =>
    cases found with
    | none =>
      refine ⟨_, _, rfl, ?_⟩
      change behaviour.Raised _ _ _ _ unwind'.walker.stack.contexts unwind'.walker.landing
      rw [hstack', hlanding']
      exact .endOfStack (hresult ▸ hsearched)
    | some handler =>
      subst hresult
      have htarget : (chosen handler unwind').exception.target = handler := rfl
      obtain ⟨reason, unwind'', hsecond, hcleaned⟩ := cleanup_registered behaviour stop htarget
        (hstack'.symm ▸ hsearched.handler_named) (hstack'.symm ▸ enough)
      have hchosen : (chosen handler unwind').exception =
          { unwind.exception with stop := 0, target := handler } := by
        change ({ unwind'.exception with target := handler } : Exception) = _
        rw [hexception]
        rfl
      refine ⟨reason, unwind'', hsecond, .secondPhase hsearched ?_⟩
      rw [← hchosen, ← hstack']
      exact hcleaned

/-- Personalities that land in the function at call site 2, hand it the exception and
the second of two words, and name its first landing pad. -/
def landsAtSite2 : Behaviour Unit := fun _ action exception context world =>
  if context.ip ≠ 3 then (.continueUnwind, [.register 0 0xbad, .ip 0xbad], world)
  else if action = .search then (.handlerFound, [.register 0 0xbad, .ip 0xbad], world)
  else
    (.installContext, [.register 0 exception.address, .register 1 41, .register 1 42,
      .register 4 0xbad, .register (-1) 0xbad, .ip 1], world)

def registeredAt (site : UInt32) (personality : Option Word) : FunctionContext where
  resumeLocation := site
  parameters := Vector.replicate 4 0
  personality := personality
  lsda := 0
  jumpBuffer := Vector.replicate 5 site.toUInt64

/-- Four functions, with the handler in the middle. -/
def fourRegistered : Unwind RegisteredWalker Unit :=
  start (RegisteredWalker.start ⟨[registeredAt 7 none, registeredAt 2 (some 0x1000),
    registeredAt 5 (some 0x1000), registeredAt 9 none]⟩) ⟨0x71000000, 0, 0, 0⟩ ()

theorem raise_registered_fourRegistered :
    (∃ reason unwind', raise (landsAtSite2.routines fun _ _ _ _ context state =>
          (.noReason, context, state)) 5 fourRegistered = some (reason, unwind') ∧
        landsAtSite2.Raised fourRegistered.exception fourRegistered.walker.stack.contexts () reason
          unwind'.walker.stack.contexts unwind'.walker.landing) ∧
      (raise (landsAtSite2.routines fun _ _ _ _ context state => (.noReason, context, state)) 5
          fourRegistered).map (fun (reason, unwind) => (reason, unwind.walker.stack.contexts)) =
        some (.installContext, [registeredAt 7 none,
          { registeredAt 2 (some 0x1000) with
            resumeLocation := 0, parameters := #v[0x71000000, 42, 0, 0] }]) :=
  ⟨raise_registered landsAtSite2 _ fourRegistered (by decide), by decide +kernel⟩

end Unwind

end Unwinding
