import Unwinding.Proofs.Protocol.Account
import Unwinding.Proofs.Protocol.Registered

/-!
# Resuming over registered functions

A raise over registered functions remembers how deep its handler is. The second
phase takes functions off the stack and stops, and when it is resumed it finds the
handler by its depth on what is left. That this always works is said here for one
raise and any number of resumptions after it: personalities answer as they like,
also with errors, and landing pads change what they like, but nobody writes the words
of the exception, and nothing is registered or unregistered in between.
-/

namespace Unwinding

open ProtocolCall

namespace RegisteredWalker

variable {walker walker' : RegisteredWalker} {call : ProtocolCall} {calls : List ProtocolCall}
  {frame : WalkFrame}

theorem stack_next (walker : RegisteredWalker) :
    (FrameWalker.next walker).2.stack = walker.stack := by
  change (RegisteredWalker.next walker).2.stack = walker.stack
  unfold RegisteredWalker.next
  split
  · rfl
  · dsimp only
    split <;> rfl

theorem registered_of_next (h : (FrameWalker.next walker).1 = .ok (some frame)) :
    ∃ depth < walker.stack.length, frame.id = UInt64.ofNat depth := by
  change (RegisteredWalker.next walker).1 = .ok (some frame) at h
  unfold RegisteredWalker.next at h
  split at h
  · cases h
  · next depth houtward =>
    dsimp only [ContextStack.get] at h
    cases hget : walker.stack.contexts[depth]? with
    | none => simp [hget] at h
    | some function =>
      simp only [hget, Except.ok.injEq, Option.some.injEq] at h
      exact ⟨depth, (List.getElem?_eq_some_iff.mp hget).1, h ▸ rfl⟩

theorem length_unwoundPast (walker : RegisteredWalker) :
    (FrameWalker.unwoundPast walker).2.stack.length ≤ walker.stack.length := by
  change (RegisteredWalker.unwoundPast walker).2.stack.length ≤ walker.stack.length
  unfold RegisteredWalker.unwoundPast
  split
  · exact Nat.le_refl _
  · simp [ContextStack.truncate, ContextStack.length, Nat.min_le_right]

theorem length_install (walker : RegisteredWalker) :
    (FrameWalker.install walker).2.stack.length ≤ walker.stack.length := by
  change (RegisteredWalker.install walker).2.stack.length ≤ walker.stack.length
  unfold RegisteredWalker.install
  split
  · exact Nat.le_refl _
  · split
    · exact Nat.le_refl _
    · simp [ContextStack.truncate, ContextStack.modify, ContextStack.length, Nat.min_le_right]

/-- No call of the protocol registers a function. -/
theorem length_of_moves (h : Moves walker call walker') :
    walker'.stack.length ≤ walker.stack.length := by
  cases h with
  | rewind | personality | stop => exact Nat.le_refl _
  | next answers => exact Nat.le_of_eq (congrArg ContextStack.length (stack_next walker))
  | unwoundPast answers => exact length_unwoundPast walker
  | install answers => exact length_install walker

theorem length_of_leads (h : Leads walker calls walker') :
    walker'.stack.length ≤ walker.stack.length := by
  induction h with
  | nil => exact Nat.le_refl _
  | cons moves rest ih => exact Nat.le_trans ih (length_of_moves moves)

theorem stack_of_untouched (h : Leads walker calls walker')
    (untouched : ∀ call ∈ calls, call.touches = false) : walker'.stack = walker.stack := by
  induction h with
  | nil => rfl
  | cons moves rest ih =>
    obtain ⟨hcall, hcalls⟩ := List.forall_mem_cons.mp untouched
    rw [ih hcalls]
    cases moves with
    | rewind | personality | stop => rfl
    | next answers => exact stack_next _
    | unwoundPast | install => cases hcall

theorem position_of_asked {action : Action} {answer : Reason} {asked : List ProtocolCall}
    (asks : frame.Asked action answer asked) (h : Leads walker asked walker') :
    walker'.position = walker.position := by
  cases asks with
  | absent nobody =>
    cases h
    rfl
  | called somebody =>
    cases h with
    | cons moves rest =>
      cases moves
      cases rest
      rfl

/-- The walk has all functions that are left before it, and the handler is one of them. -/
structure Due (handler : Word) (walker : RegisteredWalker) : Prop where
  outward : walker.outward = walker.stack.top
  registered : ∃ depth < walker.stack.length, UInt64.ofNat depth = handler

variable {handler : Word}

theorem Due.next (due : Due handler walker) :
    ∃ depth frame, walker.stack.length = depth + 1 ∧
      (FrameWalker.next walker).1 = .ok (some frame) ∧ frame.id = UInt64.ofNat depth ∧
      (FrameWalker.next walker).2.position = some depth := by
  obtain ⟨outer, hlt, -⟩ := due.registered
  obtain ⟨depth, hlength⟩ := Nat.exists_eq_add_one_of_ne_zero (Nat.ne_of_gt (Nat.zero_lt_of_lt hlt))
  have houtward : walker.outward = some depth := by
    rw [due.outward, ContextStack.top, hlength]
  obtain ⟨function, hfunction⟩ : ∃ function, walker.stack.contexts[depth]? = some function :=
    ⟨_, List.getElem?_eq_getElem (show depth < walker.stack.length by omega)⟩
  have hnext : FrameWalker.next walker = (.ok (some ⟨UInt64.ofNat depth, function.personality⟩),
      { walker with position := some depth, context := contextOf function }) := by
    change RegisteredWalker.next walker = _
    simp only [RegisteredWalker.next, houtward, ContextStack.get, hfunction]
  exact ⟨depth, ⟨UInt64.ofNat depth, function.personality⟩, hlength, by rw [hnext], rfl,
    by rw [hnext]⟩

theorem Due.asked (due : Due handler walker) {action : Action} {answer : Reason}
    {asked : List ProtocolCall} (asks : frame.Asked action answer asked)
    (h : Leads walker (.next (.ok (some frame)) :: asked) walker') :
    ∃ depth, walker.stack.length = depth + 1 ∧ frame.id = UInt64.ofNat depth ∧
      walker'.position = some depth ∧ walker'.stack = walker.stack := by
  obtain ⟨depth, frame', hlength, hnext, hid, hposition⟩ := due.next
  have hstack := stack_of_untouched h (List.forall_mem_cons.mpr ⟨rfl, asks.untouched⟩)
  obtain ⟨answers, rest⟩ := h.of_next
  cases hnext.symm.trans answers
  exact ⟨depth, hlength, hid, (position_of_asked asks rest).trans hposition, hstack⟩

/-- The second phase has come from the innermost of the functions of `walker` to the
one at depth `last`, and no further. -/
structure Outward (handler : Word) (walker walker' : RegisteredWalker) (frames : List WalkFrame)
    (last : Nat) : Prop where
  last_lt : last < walker.stack.length
  /-- It came to one function after the other. -/
  frames : frames.map (·.id) =
    (List.range' last (walker.stack.length - last)).reverse.map UInt64.ofNat
  position : walker'.position = some last
  /-- Only those inside of the last are gone. -/
  length : walker'.stack.length = last + 1
  /-- The handler is still there. -/
  registered : ∃ depth ≤ last, UInt64.ofNat depth = handler

theorem Outward.congr {walker'' : RegisteredWalker} {frames : List WalkFrame} {last : Nat}
    (h : Outward handler walker walker' frames last)
    (hlength : walker''.stack.length = walker.stack.length) :
    Outward handler walker'' walker' frames last where
  last_lt := hlength ▸ h.last_lt
  frames := hlength ▸ h.frames
  position := h.position
  length := h.length
  registered := h.registered

theorem Outward.innermost {depth : Nat} (due : Due handler walker)
    (hlength : walker.stack.length = depth + 1) (hid : frame.id = UInt64.ofNat depth)
    (hposition : walker'.position = some depth) (hstack : walker'.stack.length = depth + 1) :
    Outward handler walker walker' [frame] depth where
  last_lt := by omega
  frames := by simp [hlength, hid]
  position := hposition
  length := hstack
  registered := by
    obtain ⟨outer, hlt, hname⟩ := due.registered
    exact ⟨outer, by omega, hname⟩

theorem Outward.further {depth last : Nat} {walker'' : RegisteredWalker}
    {frames : List WalkFrame} (hlength : walker.stack.length = depth + 1)
    (hid : frame.id = UInt64.ofNat depth) (hleft : walker'.stack.length = depth)
    (h : Outward handler walker' walker'' frames last) :
    Outward handler walker walker'' (frame :: frames) last where
  last_lt := by
    have := h.last_lt
    omega
  frames := by
    have hlast := h.last_lt
    have hcount : walker.stack.length - last = (depth - last) + 1 := by omega
    have hend : last + 1 * (depth - last) = depth := by omega
    rw [List.map_cons, h.frames, hleft, hcount, List.range'_concat, hend, List.reverse_append,
      List.reverse_singleton, List.singleton_append, List.map_cons, hid]
  position := h.position
  length := h.length
  registered := h.registered

theorem Due.left {depth : Nat} (due : Due handler walker)
    (hlength : walker.stack.length = depth + 1) (other : UInt64.ofNat depth ≠ handler)
    (hposition : walker'.position = some depth) (hstack : walker'.stack = walker.stack) :
    (FrameWalker.unwoundPast walker').2.stack.length = depth ∧
      Due handler (FrameWalker.unwoundPast walker').2 := by
  have hleft : FrameWalker.unwoundPast walker' =
      (.ok (), { walker' with stack := walker.stack.truncate depth }) := by
    change RegisteredWalker.unwoundPast walker' = _
    simp only [RegisteredWalker.unwoundPast, hposition, hstack]
  have hcount : (walker.stack.truncate depth).length = depth := by
    change (walker.stack.contexts.take depth).length = depth
    rw [List.length_take]
    exact Nat.min_eq_left (show depth ≤ walker.stack.length by omega)
  obtain ⟨outer, hlt, hname⟩ := due.registered
  have hother : outer ≠ depth := by
    rintro rfl
    exact other hname
  rw [hleft]
  refine ⟨hcount, ?_, outer, ?_, hname⟩
  · cases depth <;> simp [RegisteredWalker.outward, hposition, ContextStack.top, hcount]
  · rw [hcount]
    omega

theorem unwoundPast_ok (walker : RegisteredWalker) :
    (FrameWalker.unwoundPast walker).1 = .ok () := by
  change (RegisteredWalker.unwoundPast walker).1 = .ok ()
  unfold RegisteredWalker.unwoundPast
  split <;> rfl

theorem install_ok {depth : Nat} (hlength : walker.stack.length = depth + 1)
    (hposition : walker.position = some depth) :
    (FrameWalker.install walker).1 = .ok () ∧
      (FrameWalker.install walker).2.position = some depth ∧
      (FrameWalker.install walker).2.stack.length = depth + 1 := by
  have hcount : walker.stack.contexts.length = depth + 1 := hlength
  change (RegisteredWalker.install walker).1 = .ok () ∧
    (RegisteredWalker.install walker).2.position = some depth ∧
      (RegisteredWalker.install walker).2.stack.length = depth + 1
  simp [RegisteredWalker.install, hposition, ContextStack.get, ContextStack.modify,
    ContextStack.truncate, ContextStack.length, hcount]

/-- A second phase that has the handler before it stops at a function, with a context
installed or because of what the function answers, and for no other reason. -/
theorem Due.outward_cleaningUp {left : List WalkFrame} {stop : Option WalkFrame}
    {result : Except WalkError Reason} {made : List ProtocolCall} (due : Due handler walker)
    (h : CleaningUp handler left stop result made) (leads : Leads walker made walker') :
    ∃ frame last, stop = some frame ∧ frame.id = UInt64.ofNat last ∧
      Outward handler walker walker' (left ++ [frame]) last ∧
      (result = .ok .installContext ∨ ∃ answer, result = .error (.personality 2 answer)) := by
  induction h generalizing walker with
  | lost =>
    obtain ⟨depth, frame, -, hnext, -⟩ := due.next
    cases hnext.symm.trans leads.of_next.1
  | failed error =>
    obtain ⟨depth, frame, -, hnext, -⟩ := due.next
    cases hnext.symm.trans leads.of_next.1
  | @refused frame reason asked asks fatal =>
    obtain ⟨depth, hlength, hid, hposition, hstack⟩ := due.asked asks leads
    exact ⟨frame, depth, rfl, hid, .innermost due hlength hid hposition (hstack ▸ hlength),
      .inr ⟨reason, rfl⟩⟩
  | @installed frame asked asks =>
    rw [← List.cons_append] at leads
    obtain ⟨asking, hasked, hinstall⟩ := leads.split
    obtain ⟨depth, hlength, hid, hposition, hstack⟩ := due.asked asks hasked
    obtain ⟨-, hstay, hkept⟩ := install_ok (hstack ▸ hlength) hposition
    have hlast := hinstall.of_install.2.of_nil
    exact ⟨frame, depth, rfl, hid, .innermost due hlength hid (hlast ▸ hstay) (hlast ▸ hkept),
      .inl rfl⟩
  | @notInstalled frame asked error asks =>
    rw [← List.cons_append] at leads
    obtain ⟨asking, hasked, hinstall⟩ := leads.split
    obtain ⟨depth, hlength, hid, hposition, hstack⟩ := due.asked asks hasked
    cases (install_ok (hstack ▸ hlength) hposition).1.symm.trans hinstall.of_install.1
  | @notLeft frame asked error other asks =>
    rw [← List.cons_append] at leads
    obtain ⟨asking, hasked, hleave⟩ := leads.split
    cases (unwoundPast_ok asking).symm.trans hleave.of_unwoundPast.1
  | @left frame frames stop result asked calls other asks rest ih =>
    rw [← List.cons_append] at leads
    obtain ⟨asking, hasked, hleave⟩ := leads.split
    obtain ⟨depth, hlength, hid, hposition, hstack⟩ := due.asked asks hasked
    obtain ⟨hcount, hdue⟩ := due.left hlength (hid ▸ other) hposition hstack
    obtain ⟨frame', last, hstop, hid', houtward, hresult⟩ := ih hdue hleave.of_unwoundPast.2
    exact ⟨frame', last, hstop, hid', .further hlength hid hcount houtward, hresult⟩

theorem registered_of_searching {passed : List WalkFrame} {stop : Option WalkFrame}
    {result : Except WalkError (Option Word)} {made : List ProtocolCall}
    (h : Searching passed stop result made) (found : result = .ok (some handler))
    (leads : Leads walker made walker') :
    ∃ depth < walker.stack.length, UInt64.ofNat depth = handler := by
  induction h generalizing walker with
  | ended | failed | refused => cases found
  | found asks =>
    cases found
    obtain ⟨depth, hlt, hid⟩ := registered_of_next leads.of_next.1
    exact ⟨depth, hlt, hid.symm⟩
  | @passed frame frames stop result asked calls asks rest ih =>
    rw [← List.cons_append] at leads
    obtain ⟨asking, hasked, hrest⟩ := leads.split
    have hstack := stack_of_untouched hasked (List.forall_mem_cons.mpr ⟨rfl, asks.untouched⟩)
    rw [← hstack]
    exact ih found hrest

theorem due_rewind (registered : ∃ depth < walker.stack.length, UInt64.ofNat depth = handler) :
    Due handler (FrameWalker.rewind walker) where
  outward := rfl
  registered := registered

end RegisteredWalker

namespace Unwind

open RegisteredWalker

variable {ω : Type} {handler : Word} {unwind unwind' : Unwind RegisteredWalker ω}
  {budget : Nat} {reason : Reason}

theorem cleanupFrames_returns (routines : Routines ω) (due : Due handler unwind.walker)
    (enough : unwind.walker.stack.length ≤ budget) :
    ∃ result unwind', cleanupFrames routines handler budget unwind = some (result, unwind') := by
  induction budget generalizing unwind with
  | zero =>
    obtain ⟨depth, hlt, -⟩ := due.registered
    omega
  | succ budget ih =>
    obtain ⟨depth, frame, hlength, hnext, hid, hposition⟩ := due.next
    obtain ⟨asked, asks, -, hleads⟩ := heard_recorded routines unwind [] (frame.duty handler) hnext
    obtain ⟨_, hlength', hid', hposition', hstack⟩ := due.asked asks hleads
    rw [cleanupFrames_succ, hnext]
    dsimp only
    generalize heard routines unwind frame (frame.duty handler) = heard at hposition' hstack
    split
    · split <;> exact ⟨_, _, rfl⟩
    · split
      · next hleave =>
        obtain rfl : _ = depth := Nat.succ.inj (hlength'.symm.trans hlength)
        obtain ⟨hcount, hdue⟩ := due.left hlength (hid ▸ hleave.2) hposition' hstack
        rw [unwoundPast_ok]
        exact ih hdue (show (FrameWalker.unwoundPast heard.walker).2.stack.length ≤ budget by omega)
      · exact ⟨_, _, rfl⟩

theorem resume_returns (routines : Routines ω) (stop : unwind.exception.stop = 0)
    (target : unwind.exception.target = handler)
    (registered : ∃ depth < unwind.walker.stack.length, UInt64.ofNat depth = handler)
    (enough : unwind.walker.stack.length ≤ budget) :
    ∃ reason unwind', resume routines budget unwind = some (reason, unwind') := by
  subst target
  rw [resume_eq, if_pos stop, cleanup_eq]
  have hdue : Due unwind.exception.target (cleaning unwind).walker := due_rewind registered
  obtain ⟨result, unwind', hrun⟩ := cleanupFrames_returns routines hdue enough
  cases result with
  | ok reason => exact ⟨_, _, orFail_ok hrun _⟩
  | error error => exact ⟨_, _, orFail_error hrun _⟩

/-- What a second phase has done when it answers and leaves `unwind'`: it went outward
from the innermost function of `walker` and stopped at the one at depth `last`. -/
structure Landed (handler : Word) (walker : RegisteredWalker) (reason : Reason)
    (unwind' : Unwind RegisteredWalker ω) (cleaned : List ProtocolCall) (last : Nat) : Prop where
  outward : ∃ left frame, Outward handler walker unwind'.walker (left ++ [frame]) last ∧
    /- A context was installed, or it is a personality that failed: the handler was not
    lost, and every function was there. -/
    ((reason = .installContext ∧ ∃ made, cleaned = .rewind :: made ∧
        CleaningUp handler left (some frame) (.ok .installContext) made) ∨
      (reason = .fatalPhase2Error ∧ ∃ answer made, cleaned = .rewind :: made ∧
        CleaningUp handler left (some frame) (.error (.personality 2 answer)) made))
  complete : unwind'.phase = .complete ↔
    reason = .installContext ∧ UInt64.ofNat last = handler

theorem Cleaned.landed {walker : RegisteredWalker} {cleaned : List ProtocolCall}
    (h : Cleaned unwind' handler reason cleaned) (leads : Leads walker cleaned unwind'.walker)
    (registered : ∃ depth < walker.stack.length, UInt64.ofNat depth = handler) :
    ∃ last, Landed handler walker reason unwind' cleaned last := by
  cases h with
  | @installContext left frame made calls phase =>
    obtain ⟨_, last, hstop, hid, houtward, -⟩ :=
      (due_rewind registered).outward_cleaningUp calls leads.of_rewind
    cases hstop
    refine ⟨last, ⟨left, frame, houtward.congr rfl, .inl ⟨rfl, made, rfl, calls⟩⟩, ?_⟩
    rw [phase, hid]
    by_cases hat : UInt64.ofNat last = handler <;> simp [hat]
  | @fatalPhase2Error left stop error made calls phase failure =>
    obtain ⟨frame, last, rfl, hid, houtward, hresult⟩ :=
      (due_rewind registered).outward_cleaningUp calls leads.of_rewind
    obtain hok | ⟨answer, herror⟩ := hresult
    · cases hok
    · cases herror
      refine ⟨last, ⟨left, frame, houtward.congr rfl, .inr ⟨rfl, answer, made, rfl, calls⟩⟩, ?_⟩
      simp [phase]

/-! ## A raise and what comes after it -/

/-- How an unwind is entered. -/
inductive Entry where
  | raise
  | resume
  deriving Repr, DecidableEq

def Entry.run {W ω : Type} [FrameWalker W] :
    Entry → Routines ω → (budget : Nat) → Operation W ω Reason
  | raise => Unwind.raise
  | resume => Unwind.resume

/-- A call of the unwinder that came back, with an answer or because a context was
installed. -/
structure Attempt (ω : Type) where
  entry : Entry
  routines : Routines ω
  discreet : routines.Discreet
  budget : Nat
  before : Unwind RegisteredWalker ω
  reason : Reason
  after : Unwind RegisteredWalker ω
  ran : entry.run routines budget before = some (reason, after)

/-- What lies between two attempts for one exception: nothing is registered or
unregistered, and the words of the exception stay. Everything else may change. -/
structure Between (earlier later : Unwind RegisteredWalker ω) : Prop where
  length : later.walker.stack.length = earlier.walker.stack.length
  stop : later.exception.stop = earlier.exception.stop
  target : later.exception.target = earlier.exception.target

theorem Between.refl (unwind : Unwind RegisteredWalker ω) : Between unwind unwind :=
  ⟨rfl, rfl, rfl⟩

/-- A raise that found `handler` in its first phase, and resumptions after it, the
latest first. -/
inductive Run (handler : Word) : List (Attempt ω) → Prop where
  | raised (attempt : Attempt ω) (entry : attempt.entry = .raise)
    (found : attempt.reason ≠ .endOfStack ∧ attempt.reason ≠ .fatalPhase1Error)
    (target : attempt.after.exception.target = handler) : Run handler [attempt]
  | resumed {last : Attempt ω} {earlier : List (Attempt ω)} (run : Run handler (last :: earlier))
    (attempt : Attempt ω) (entry : attempt.entry = .resume)
    (between : Between last.after attempt.before) : Run handler (attempt :: last :: earlier)

/-- What an attempt called before its second phase. -/
def Entry.Searches (handler : Word) (calls : List ProtocolCall) : Entry → Prop
  | raise => ∃ passed stop made, calls = .rewind :: made ∧
      Searching passed stop (.ok (some handler)) made
  | resume => calls = []

/-- An attempt has kept the handler: it went outward from the innermost function to the
one at depth `last`. -/
structure Attempt.Settled (handler : Word) (attempt : Attempt ω)
    (searched cleaned : List ProtocolCall) (last : Nat) : Prop where
  recorded : attempt.entry.run attempt.routines.recording attempt.budget
      (attempt.before.recorded []) =
    some (attempt.reason, attempt.after.recorded (searched ++ cleaned))
  leads : Leads attempt.before.walker (searched ++ cleaned) attempt.after.walker
  searches : attempt.entry.Searches handler searched
  landed : Landed handler attempt.before.walker attempt.reason attempt.after cleaned last
  /-- The handler is never taken off, and nothing is put on between any two calls. -/
  kept : ∀ calls calls' calls'' walker walker', searched ++ cleaned = calls ++ calls' ++ calls'' →
    Leads attempt.before.walker calls walker → Leads walker calls' walker' →
      Leads walker' calls'' attempt.after.walker →
        handler.toNat < walker'.stack.length ∧ walker'.stack.length ≤ walker.stack.length
  /-- The unwind is complete just when the function that was found is landed in. -/
  complete : attempt.before.walker.stack.length ≤ UInt64.size →
    (attempt.after.phase = .complete ↔
      attempt.reason = .installContext ∧ last = handler.toNat)
  stop : attempt.after.exception.stop = 0
  target : attempt.after.exception.target = handler

theorem Landed.position {walker : RegisteredWalker} {cleaned : List ProtocolCall} {last : Nat}
    (h : Landed handler walker reason unwind' cleaned last) :
    unwind'.walker.position = some last ∧ unwind'.walker.stack.length = last + 1 ∧
      ∃ depth ≤ last, UInt64.ofNat depth = handler := by
  obtain ⟨left, frame, houtward, -⟩ := h.outward
  exact ⟨houtward.position, houtward.length, houtward.registered⟩

/-- As long as depths are words, a function is known by its depth. -/
theorem Landed.complete_iff {walker : RegisteredWalker} {cleaned : List ProtocolCall} {last : Nat}
    (h : Landed handler walker reason unwind' cleaned last)
    (words : walker.stack.length ≤ UInt64.size) :
    unwind'.phase = .complete ↔ reason = .installContext ∧ last = handler.toNat := by
  obtain ⟨left, frame, houtward, -⟩ := h.outward
  have hlast : last % 2 ^ 64 = last :=
    Nat.mod_eq_of_lt (Nat.lt_of_lt_of_le houtward.last_lt words)
  rw [h.complete, ← UInt64.toNat_inj, UInt64.toNat_ofNat', hlast]

theorem Landed.congr {walker walker' : RegisteredWalker} {cleaned : List ProtocolCall} {last : Nat}
    (h : Landed handler walker reason unwind' cleaned last)
    (hlength : walker'.stack.length = walker.stack.length) :
    Landed handler walker' reason unwind' cleaned last where
  outward := by
    obtain ⟨left, frame, houtward, hended⟩ := h.outward
    exact ⟨left, frame, houtward.congr hlength, hended⟩
  complete := h.complete

theorem Landed.kept {walker : RegisteredWalker} {cleaned : List ProtocolCall} {last : Nat}
    (h : Landed handler walker reason unwind' cleaned last) {calls calls' : List ProtocolCall}
    {earlier later : RegisteredWalker} (hbetween : Leads earlier calls later)
    (hafter : Leads later calls' unwind'.walker) :
    handler.toNat < later.stack.length ∧ later.stack.length ≤ earlier.stack.length := by
  obtain ⟨-, hlength, depth, hle, hname⟩ := h.position
  have hmod : handler.toNat ≤ depth := by
    rw [← hname, UInt64.toNat_ofNat']
    exact Nat.mod_le ..
  have hleft := length_of_leads hafter
  exact ⟨by omega, length_of_leads hbetween⟩

theorem settled_raise (attempt : Attempt ω) (entry : attempt.entry = .raise)
    (found : attempt.reason ≠ .endOfStack ∧ attempt.reason ≠ .fatalPhase1Error) :
    ∃ searched cleaned last,
      attempt.Settled attempt.after.exception.target searched cleaned last := by
  have hran := attempt.ran
  rw [entry] at hran
  obtain ⟨stored, calls, hraised, hrecorded, hleads, -, hwords⟩ := raise_recorded hran []
  obtain ⟨hstop, htarget⟩ := Prod.mk.inj (hwords attempt.discreet)
  rw [← htarget] at hraised
  obtain ⟨passed, stop, made, cleaned, rfl, hsearch, hcleaned⟩ := hraised.second_phase found
  obtain ⟨found, hsearched, hrest⟩ := hleads.split
  have hstack : found.stack = attempt.before.walker.stack :=
    stack_of_untouched hsearched (List.forall_mem_cons.mpr ⟨rfl, hsearch.untouched⟩)
  have hregistered : ∃ depth < found.stack.length,
      UInt64.ofNat depth = attempt.after.exception.target := by
    rw [hstack]
    have hrewound := registered_of_searching hsearch rfl hsearched.of_rewind
    exact hrewound
  obtain ⟨last, hlanded⟩ := hcleaned.landed hrest hregistered
  have hlanded' := hlanded.congr (congrArg ContextStack.length hstack.symm)
  exact ⟨.rewind :: made, cleaned, last, {
    recorded := by
      rw [entry]
      exact hrecorded
    leads := hleads
    searches := by
      rw [entry]
      exact ⟨passed, stop, made, rfl, hsearch⟩
    landed := hlanded'
    kept := fun _ _ _ _ _ _ _ => hlanded'.kept
    complete := hlanded'.complete_iff
    stop := hstop
    target := rfl }⟩

theorem settled_resume (attempt : Attempt ω) (entry : attempt.entry = .resume)
    (stop : attempt.before.exception.stop = 0) (target : attempt.before.exception.target = handler)
    (registered : ∃ depth < attempt.before.walker.stack.length, UInt64.ofNat depth = handler) :
    ∃ searched cleaned last, attempt.Settled handler searched cleaned last := by
  have hran := attempt.ran
  rw [entry] at hran
  change resume attempt.routines attempt.budget attempt.before = _ at hran
  rw [resume_eq, if_pos stop] at hran
  obtain ⟨cleaned, hcleaned, hrecorded, hleads, hwords⟩ := cleanup_recorded hran []
  obtain ⟨hstop, htarget⟩ := Prod.mk.inj (hwords attempt.discreet)
  rw [target] at hcleaned
  obtain ⟨last, hlanded⟩ := hcleaned.landed hleads registered
  exact ⟨[], cleaned, last, {
    recorded := by
      rw [entry]
      change resume attempt.routines.recording attempt.budget (attempt.before.recorded []) = _
      rw [resume_eq, exception_recorded, if_pos stop]
      exact hrecorded
    leads := hleads
    searches := by
      rw [entry]
      rfl
    landed := hlanded
    kept := fun _ _ _ _ _ _ _ => hlanded.kept
    complete := hlanded.complete_iff
    stop := hstop.trans stop
    target := htarget.trans target }⟩

theorem Attempt.Settled.between {attempt : Attempt ω} {searched cleaned : List ProtocolCall}
    {last : Nat} {later : Unwind RegisteredWalker ω}
    (h : attempt.Settled handler searched cleaned last) (between : Between attempt.after later) :
    later.exception.stop = 0 ∧ later.exception.target = handler ∧
      (∃ depth < later.walker.stack.length, UInt64.ofNat depth = handler) ∧
      later.walker.stack.top = attempt.after.walker.position := by
  obtain ⟨hposition, hlength, depth, hle, hname⟩ := h.landed.position
  have hlater : later.walker.stack.length = last + 1 := between.length.trans hlength
  refine ⟨between.stop.trans h.stop, between.target.trans h.target, ⟨depth, by omega, hname⟩, ?_⟩
  rw [ContextStack.top, hlater, hposition]

/-- Through a raise that found a handler and all resumptions after it, each attempt
keeps the handler and begins where the one before it stopped, and one more resumption
would always come back, too. -/
theorem run_settled {attempts : List (Attempt ω)} (run : Run handler attempts) :
    (∀ attempt ∈ attempts, ∃ searched cleaned last,
        attempt.Settled handler searched cleaned last) ∧
      attempts.IsChain (fun later earlier =>
        later.before.walker.stack.top = earlier.after.walker.position) ∧
      ∀ last ∈ attempts.head?, ∀ (routines : Routines ω) (budget : Nat)
        (later : Unwind RegisteredWalker ω), Between last.after later →
          later.walker.stack.length ≤ budget →
            ∃ reason unwind', resume routines budget later = some (reason, unwind') := by
  induction run with
  | raised attempt entry found target =>
    subst target
    obtain ⟨searched, cleaned, last, hsettled⟩ := settled_raise attempt entry found
    refine ⟨by simpa using ⟨searched, cleaned, last, hsettled⟩, .singleton attempt, ?_⟩
    rintro _ ⟨rfl⟩ routines budget later between enough
    obtain ⟨hstop, htarget, hregistered, -⟩ := hsettled.between between
    exact resume_returns routines hstop htarget hregistered enough
  | @resumed previous earlier run attempt entry between ih =>
    obtain ⟨hall, hchain, -⟩ := ih
    obtain ⟨searched, cleaned, last, hprevious⟩ := hall previous List.mem_cons_self
    obtain ⟨hstop, htarget, hregistered, hstart⟩ := hprevious.between between
    obtain ⟨searched', cleaned', last', hsettled⟩ :=
      settled_resume attempt entry hstop htarget hregistered
    refine ⟨List.forall_mem_cons.mpr ⟨⟨searched', cleaned', last', hsettled⟩, hall⟩,
      .cons_cons hstart hchain, ?_⟩
    rintro _ ⟨rfl⟩ routines budget later between' enough
    obtain ⟨hstop', htarget', hregistered', -⟩ := hsettled.between between'
    exact resume_returns routines hstop' htarget' hregistered' enough

/-- The attempt that comes back from here. -/
def Attempt.of (entry : Entry) {routines : Routines ω} (discreet : routines.Discreet)
    (budget : Nat) (before : Unwind RegisteredWalker ω)
    (returns : (entry.run routines budget before).isSome) : Attempt ω where
  entry := entry
  routines := routines
  discreet := discreet
  budget := budget
  before := before
  reason := ((entry.run routines budget before).get returns).1
  after := ((entry.run routines budget before).get returns).2
  ran := (Option.some_get returns).symm

theorem Attempt.of_before (entry : Entry) {routines : Routines ω} (discreet : routines.Discreet)
    (budget : Nat) (before : Unwind RegisteredWalker ω)
    (returns : (entry.run routines budget before).isSome) :
    (Attempt.of entry discreet budget before returns).before = before := rfl

/-- Personalities that handle an exception at call site 2, and clean up at call site 5
before that. -/
def cleansUpAtSite5 : Behaviour Unit := fun _ action _ context world =>
  if action = .search then
    (if context.ip = 3 then .handlerFound else .continueUnwind, [], world)
  else if context.ip = 3 ∨ context.ip = 6 then (.installContext, [.ip 1], world)
  else (.continueUnwind, [], world)

def cleansUp : Routines Unit :=
  cleansUpAtSite5.routines fun _ _ _ _ context state => (.noReason, context, state)

theorem discreet_cleansUp : cleansUp.Discreet := cleansUpAtSite5.discreet_routines _

/-- The raise is interrupted for a cleanup. -/
def raisedOnce : Attempt Unit := .of .raise discreet_cleansUp 5 fourRegistered (by decide +kernel)

/-- The resumption comes to the handler. -/
def resumedOnce : Attempt Unit := .of .resume discreet_cleansUp 5 raisedOnce.after (by decide +kernel)

theorem run_settled_resumedOnce :
    Run 1 [resumedOnce, raisedOnce] ∧ raisedOnce.after.phase = .cleaningUp ∧
      resumedOnce.after.phase = .complete ∧
      (∃ searched cleaned last, resumedOnce.Settled 1 searched cleaned last) ∧
      resumedOnce.before.walker.stack.top = raisedOnce.after.walker.position := by
  have hraised : Run 1 [raisedOnce] :=
    .raised raisedOnce rfl (by decide +kernel) (by decide +kernel)
  have hrun : Run 1 [resumedOnce, raisedOnce] := by
    refine .resumed hraised resumedOnce rfl ?_
    rw [resumedOnce, Attempt.of_before]
    exact .refl raisedOnce.after
  obtain ⟨hall, hchain, -⟩ := run_settled hrun
  exact ⟨hrun, by decide +kernel, by decide +kernel, hall resumedOnce List.mem_cons_self,
    (List.isChain_cons_cons.mp hchain).1⟩

end Unwind

end Unwinding
