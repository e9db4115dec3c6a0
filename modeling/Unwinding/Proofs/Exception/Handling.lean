import Mathlib.Data.Finset.Dedup
import Unwinding.Proofs.Exception.Balance

/-!
# Throwing and handling in any order

A program throws exceptions, enters and leaves handlers, throws again what it
handles, and discards what nobody caught. It has to keep to a few rules: only
what is on its way, or what is handled innermost, can be handled; and only
what is on its way can be discarded. A program that does, in whatever order it
acts, never sees a fault of the ledger, and every payload goes at the moment
at which the last handle on it is given up.
-/

namespace Unwinding

/-- What a program does with exceptions. -/
inductive HandlingAction (π : Type) where
  | throwNew (payload : π)
  | handle (exception : Nat)
  | leave
  | throwAgain
  | discard (exception : Nat)
  deriving Repr, DecidableEq

/-- A thread's ledger, with what the program knows of its exceptions. -/
structure Handling (π : Type) where
  ledger : Ledger π
  /-- The exceptions that are on their way, the latest first. -/
  inFlight : List Nat
  /-- What each exception was made for. -/
  made : List (Origin π)
  deriving Repr, DecidableEq

namespace Handling

variable {π α : Type}

def start : Handling π := ⟨Ledger.empty, [], []⟩

/-- What follows an operation on the ledger. -/
def after (s : Handling π) (operation : Ledger.Update π α) (next : α → Ledger π → Handling π) :
    Except LedgerFault (Handling π) :=
  match operation s.ledger with
  | .ok answer ledger => .ok (next answer ledger)
  | .error fault _ => .error fault

def perform (s : Handling π) : HandlingAction π → Except LedgerFault (Handling π)
  | .throwNew payload => s.after (Ledger.beginThrow payload) fun e ledger =>
    ⟨ledger, e :: s.inFlight, s.made ++ [.thrown payload]⟩
  | .handle e => s.after (Ledger.beginCatch e) fun _ ledger => ⟨ledger, s.inFlight.erase e, s.made⟩
  | .leave => s.after Ledger.endCatch fun _ ledger => ⟨ledger, s.inFlight, s.made⟩
  | .throwAgain => s.after Ledger.beginRethrow fun e ledger =>
    ⟨ledger, e :: s.inFlight, s.made ++ [.rethrown (ledger.primaryOf e)]⟩
  | .discard e => s.after (Ledger.delete e) fun _ ledger => ⟨ledger, s.inFlight.erase e, s.made⟩

/-- The program keeps to the rules. -/
def Allowed (s : Handling π) : HandlingAction π → Prop
  | .throwNew _ | .leave => True
  | .handle e => e ∈ s.inFlight ∨ s.ledger.current = some e
  | .throwAgain => s.ledger.caught ≠ []
  | .discard e => e ∈ s.inFlight

/-- The states of programs that keep to the rules. -/
inductive Reachable : Handling π → Prop where
  | start : Reachable start
  | step {s s' : Handling π} (action : HandlingAction π) (h : Reachable s)
    (allowed : s.Allowed action) (done : s.perform action = .ok s') : Reachable s'

/-- The exceptions whose own handle has not been given up. -/
def held (s : Handling π) : Finset Nat := (s.ledger.caught ++ s.inFlight).toFinset

end Handling

namespace Handling

variable {π : Type} {s s' : Handling π} {e : Nat}

theorem mem_held : e ∈ s.held ↔ e ∈ s.ledger.caught ∨ e ∈ s.inFlight := by
  rw [held, List.mem_toFinset, List.mem_append]

/-- What is true in every state: the references are in balance with those that
hold exceptions, nobody holds one twice, and what is being handled has a
handler. -/
structure Sound (s : Handling π) : Prop where
  balanced : s.ledger.Balanced s.made s.held none
  nodup : (s.ledger.caught ++ s.inFlight).Nodup
  handled : ∀ e ∈ s.ledger.caught, ∃ handlers, s.ledger.handlersOf e = some (handlers + 1)

theorem Sound.start : (start : Handling π).Sound where
  balanced := Ledger.Balanced.empty
  nodup := List.nodup_nil
  handled _ h := nomatch h

theorem Sound.launch (h : s.Sound) {ledger : Ledger π} {origin : Origin π}
    (hbalanced : ledger.Balanced (s.made ++ [origin]) (insert s.ledger.entries.length s.held) none)
    (hcaught : ledger.caught = s.ledger.caught)
    (hhandlers : ∀ e, e < s.ledger.entries.length → ledger.handlersOf e = s.ledger.handlersOf e) :
    Sound ⟨ledger, s.ledger.entries.length :: s.inFlight, s.made ++ [origin]⟩ := by
  refine ⟨?_, ?_, ?_⟩
  · have hheld : held ⟨ledger, s.ledger.entries.length :: s.inFlight, s.made ++ [origin]⟩ =
        insert s.ledger.entries.length s.held := by
      ext e
      simp only [mem_held, hcaught, List.mem_cons, Finset.mem_insert]
      exact or_left_comm
    rw [hheld]
    exact hbalanced
  · have hnew := h.balanced.next_unheld
    rw [mem_held, not_or] at hnew
    simp only [hcaught]
    rw [List.nodup_middle, List.nodup_cons, List.mem_append]
    exact ⟨not_or.mpr hnew, h.nodup⟩
  · intro e he
    rw [hcaught] at he
    have hlive := h.balanced.live e (mem_held.mpr (.inl he))
    obtain ⟨handlers, hh⟩ := h.handled e he
    exact ⟨handlers, (hhandlers e (Ledger.lt_length_of_entry hlive)).trans hh⟩

theorem Sound.throwNew (h : s.Sound) (payload : π) :
    ∃ s', s.perform (.throwNew payload) = .ok s' ∧ s'.Sound :=
  ⟨_, rfl, h.launch (h.balanced.appendPrimary rfl rfl rfl) rfl fun _ he =>
    Ledger.handlersOf_append rfl he⟩

theorem Sound.primaryOf (h : s.Sound) (he : e ∈ s.held) :
    ∃ payload header, s.ledger.entry (s.ledger.primaryOf e) = .primary payload header := by
  cases hentry : s.ledger.entry e with
  | primary payload header =>
    refine ⟨payload, header, ?_⟩
    rw [Ledger.primaryOf, hentry, hentry]
  | dependent primary header =>
    obtain ⟨-, -, -, payload, header', hp⟩ := h.balanced.dependent e primary header hentry
    refine ⟨payload, header', ?_⟩
    rw [Ledger.primaryOf, hentry, hp]
  | foreign kind wanted => exact absurd hentry (h.balanced.native e kind wanted)
  | freed => exact absurd hentry (h.balanced.live e he)

theorem Sound.throwAgain (h : s.Sound) (hcaught : s.ledger.caught ≠ []) :
    ∃ s', s.perform .throwAgain = .ok s' ∧ s'.Sound := by
  obtain ⟨e, rest, hcons⟩ := List.exists_cons_of_ne_nil hcaught
  have hcurrent : s.ledger.current = some e := by rw [Ledger.current, hcons]; rfl
  have hheld : e ∈ s.held := mem_held.mpr (.inl (by rw [hcons]; exact List.mem_cons_self))
  obtain ⟨payload, header, hp⟩ := h.primaryOf hheld
  let middle : Ledger π :=
    { s.ledger with
      entries := s.ledger.entries.modify (s.ledger.primaryOf e)
        (·.mapHeader ({ · with references := header.references + 1 }))
      uncaught := s.ledger.uncaught + 1 }
  let new : LedgerEntry π :=
    .dependent (s.ledger.primaryOf e) { header with handlers := 0, references := 1 }
  let ledger : Ledger π := { middle with entries := middle.entries ++ [new] }
  have hrun : Ledger.beginRethrow s.ledger = .ok s.ledger.entries.length ledger :=
    Ledger.beginRethrow_eq hcurrent (h.balanced.native e) hp
  have hmodified : middle.entries = s.ledger.entries.modify (s.ledger.primaryOf e)
      (·.mapHeader ({ · with references := header.references + 1 })) := rfl
  have happended : ledger.entries = middle.entries ++ [new] := rfl
  have hlength : middle.entries.length = s.ledger.entries.length := List.length_modify ..
  have horigin : ledger.primaryOf s.ledger.entries.length = s.ledger.primaryOf e := by
    rw [Ledger.primaryOf, Ledger.entry_append happended, if_pos hlength.symm]
  have hhandlers : ∀ e', e' < s.ledger.entries.length →
      ledger.handlersOf e' = s.ledger.handlersOf e' := by
    intro e' he'
    rw [Ledger.handlersOf_append happended (hlength ▸ he'),
      Ledger.handlersOf_modify (g := id) hmodified fun _ => rfl, Option.map_id, id, ite_self]
  rw [perform, after, hrun]
  refine ⟨_, rfl, ?_⟩
  rw [horigin]
  exact h.launch (h.balanced.appendDependent hp rfl rfl rfl) rfl hhandlers

/-- The same exceptions are held when one of them passes from those on their
way to those being handled. -/
theorem held_perm {s s' : Handling π}
    (h : (s'.ledger.caught ++ s'.inFlight).Perm (s.ledger.caught ++ s.inFlight)) :
    s'.held = s.held :=
  List.toFinset_eq_of_perm _ _ h

theorem Sound.handle (h : s.Sound) (hallowed : e ∈ s.inFlight ∨ s.ledger.current = some e) :
    ∃ s', s.perform (.handle e) = .ok s' ∧ s'.Sound := by
  have hheld : e ∈ s.held := by
    rw [mem_held]
    exact hallowed.symm.imp_left List.mem_of_head?
  obtain ⟨handlers, hhandlers⟩ := h.balanced.exists_handlersOf hheld
  let ledger : Ledger π :=
    { s.ledger with
      entries := s.ledger.entries.modify e
        (·.mapHeader fun header => { header with handlers := header.handlers + 1 })
      caught := if s.ledger.current = some e then s.ledger.caught else e :: s.ledger.caught
      uncaught := s.ledger.uncaught - 1 }
  have hmodified : ledger.entries = s.ledger.entries.modify e
      (·.mapHeader fun header => { header with handlers := header.handlers + 1 }) := rfl
  have hrun : Ledger.beginCatch e s.ledger = .ok (s.ledger.payload e) ledger :=
    Ledger.beginCatch_eq hhandlers
  have hperm : (ledger.caught ++ s.inFlight.erase e).Perm (s.ledger.caught ++ s.inFlight) := by
    by_cases hcurrent : s.ledger.current = some e
    · have hnot : e ∉ s.inFlight :=
        fun he => List.disjoint_of_nodup_append h.nodup (List.mem_of_head? hcurrent) he
      simp only [ledger, if_pos hcurrent, List.erase_of_not_mem hnot]
      exact .refl _
    · have he : e ∈ s.inFlight := hallowed.resolve_right hcurrent
      simp only [ledger, if_neg hcurrent]
      exact (List.perm_middle.symm.trans ((List.perm_cons_erase he).symm.append_left _))
  have hbalanced : ledger.Balanced s.made s.held none :=
    h.balanced.adjustHandlers hmodified rfl fun _ => rfl
  rw [perform, after, hrun]
  refine ⟨_, rfl, ?_, hperm.nodup_iff.mpr h.nodup, ?_⟩
  · rw [held_perm hperm]
    exact hbalanced
  · intro e' he'
    change ∃ handlers, ledger.handlersOf e' = some (handlers + 1)
    rw [Ledger.handlersOf_modify (g := (· + 1)) hmodified fun _ => rfl]
    by_cases heq : e' = e
    · exact ⟨handlers, by rw [if_pos heq, heq, hhandlers, Option.map_some]⟩
    · rw [if_neg heq]
      refine h.handled e' ?_
      have hmem : e' ∈ ledger.caught := he'
      simp only [ledger] at hmem
      split at hmem
      · exact hmem
      · exact (List.mem_cons.mp hmem).resolve_left heq

/-- An exception is let go of by its holder. -/
theorem Sound.letGo (ledger : Ledger π) {inFlight : List Nat} {made : List (Origin π)}
    (hbalanced : ledger.Balanced made (e :: (ledger.caught ++ inFlight)).toFinset none)
    (hnodup : (e :: (ledger.caught ++ inFlight)).Nodup)
    (hhandled : ∀ e' ∈ ledger.caught, ∃ handlers, ledger.handlersOf e' = some (handlers + 1)) :
    ∃ ledger', Ledger.release e ledger = .ok () ledger' ∧ Sound ⟨ledger', inFlight, made⟩ := by
  obtain ⟨hnot, hrest⟩ := List.nodup_cons.mp hnodup
  obtain ⟨ledger', hok, hbalanced', hkeeps⟩ := Ledger.release_ok hbalanced (e := e) (by simp)
  have herase : (e :: (ledger.caught ++ inFlight)).toFinset.erase e =
      (ledger.caught ++ inFlight).toFinset := by
    rw [List.toFinset_cons, Finset.erase_insert (by rwa [List.mem_toFinset])]
  rw [herase] at hbalanced'
  refine ⟨ledger', hok, ?_, ?_, ?_⟩
  · simpa only [held, hkeeps.caught] using hbalanced'
  · simpa only [hkeeps.caught] using hrest
  · intro e' he'
    have hmem : e' ∈ ledger.caught := hkeeps.caught ▸ he'
    obtain ⟨handlers, hh⟩ := hbalanced'.exists_handlersOf (e := e') (by simp [hmem])
    obtain ⟨handlers', hh'⟩ := hhandled e' hmem
    have heq := (hkeeps.handlers e' handlers hh).symm.trans hh'
    exact ⟨handlers', hh.trans heq⟩

theorem Sound.discard (h : s.Sound) (hallowed : e ∈ s.inFlight) :
    ∃ s', s.perform (.discard e) = .ok s' ∧ s'.Sound := by
  have hperm : (e :: (s.ledger.caught ++ s.inFlight.erase e)).Perm
      (s.ledger.caught ++ s.inFlight) :=
    List.perm_middle.symm.trans ((List.perm_cons_erase hallowed).symm.append_left _)
  have hbalanced := h.balanced
  rw [held, ← List.toFinset_eq_of_perm _ _ hperm] at hbalanced
  obtain ⟨ledger', hok, hsound⟩ := letGo s.ledger hbalanced (hperm.nodup_iff.mpr h.nodup) h.handled
  have hrun : Ledger.delete e s.ledger = .ok () ledger' :=
    (Ledger.delete_eq (h.balanced.native e)).trans hok
  rw [perform, after, hrun]
  exact ⟨_, rfl, hsound⟩

theorem Sound.leave (h : s.Sound) : ∃ s', s.perform .leave = .ok s' ∧ s'.Sound := by
  cases hcaught : s.ledger.caught with
  | nil =>
    have hrun : Ledger.endCatch s.ledger = .ok () s.ledger :=
      Ledger.endCatch_none (by rw [Ledger.current, hcaught]; rfl)
    rw [perform, after, hrun]
    exact ⟨_, rfl, h⟩
  | cons e rest =>
    have hcurrent : s.ledger.current = some e := by rw [Ledger.current, hcaught]; rfl
    obtain ⟨handlers, hhandlers⟩ := h.handled e (by rw [hcaught]; exact List.mem_cons_self)
    have hrun := Ledger.endCatch_some hcurrent hhandlers
    have hnodup := h.nodup
    rw [hcaught] at hnodup
    let middle (caught : List Nat) : Ledger π :=
      { s.ledger with
        entries := s.ledger.entries.modify e (·.mapHeader ({ · with handlers }))
        caught }
    have hmodified : ∀ caught, (middle caught).entries = s.ledger.entries.modify e
        (·.mapHeader ({ · with handlers })) := fun _ => rfl
    have hbalanced : ∀ caught, (middle caught).Balanced s.made s.held none := fun caught =>
      h.balanced.adjustHandlers (hmodified caught) rfl fun _ => rfl
    have hhandlersOf : ∀ caught e', (middle caught).handlersOf e' =
        if e' = e then some handlers else s.ledger.handlersOf e' := by
      intro caught e'
      rw [Ledger.handlersOf_modify (g := fun _ => handlers) (hmodified caught) fun _ => rfl]
      split
      · rename_i heq
        rw [heq, hhandlers, Option.map_some]
      · rfl
    by_cases hzero : handlers = 0
    · rw [if_pos hzero, hcaught] at hrun
      have hheld : s.held = (e :: ((middle rest).caught ++ s.inFlight)).toFinset := by
        rw [held, hcaught]
        rfl
      have hhandled : ∀ e' ∈ rest, ∃ handlers, (middle rest).handlersOf e' = some (handlers + 1) := by
        intro e' he'
        have hne : e' ≠ e := by
          rintro rfl
          exact (List.nodup_cons.mp hnodup).1 (List.mem_append_left _ he')
        rw [hhandlersOf, if_neg hne]
        exact h.handled e' (by rw [hcaught]; exact List.mem_cons_of_mem _ he')
      obtain ⟨ledger', hok, hsound⟩ :=
        letGo (middle rest) (hheld ▸ hbalanced rest) hnodup hhandled
      rw [perform, after, hrun.trans hok]
      exact ⟨_, rfl, hsound⟩
    · rw [if_neg hzero] at hrun
      rw [perform, after, hrun]
      refine ⟨_, rfl, hbalanced s.ledger.caught, h.nodup, ?_⟩
      intro e' he'
      change ∃ handlers, (middle s.ledger.caught).handlersOf e' = some (handlers + 1)
      rw [hhandlersOf]
      by_cases heq : e' = e
      · obtain ⟨handlers', rfl⟩ := Nat.exists_eq_succ_of_ne_zero hzero
        exact ⟨handlers', if_pos heq⟩
      · rw [if_neg heq]
        exact h.handled e' he'

theorem Sound.perform (h : s.Sound) (action : HandlingAction π) (allowed : s.Allowed action) :
    ∃ s', s.perform action = .ok s' ∧ s'.Sound := by
  cases action with
  | throwNew payload => exact h.throwNew payload
  | handle e => exact h.handle allowed
  | leave => exact h.leave
  | throwAgain => exact h.throwAgain allowed
  | discard e => exact h.discard allowed

theorem Reachable.sound (h : s.Reachable) : s.Sound := by
  induction h with
  | start => exact .start
  | step action _ allowed done ih =>
    obtain ⟨s', hdone, hsound⟩ := ih.perform action allowed
    rw [done] at hdone
    cases hdone
    exact hsound

/-- The payload of a thrown exception that nobody has a handle on. -/
def drop (s : Handling π) (e : Nat) : Option (LedgerEvent π) :=
  match s.made[e]? with
  | some (.thrown payload) =>
    if s.ledger.handles s.held e = 0 then some (.dropped payload) else none
  | _ => none

theorem Sound.gone_eq_drop (h : s.Sound) (e : Nat) : s.ledger.gone s.made e = s.drop e := by
  cases hmade : s.made[e]? with
  | none => simp only [Ledger.gone, drop, hmade]
  | some origin =>
    cases origin with
    | rethrown primary => simp only [Ledger.gone, drop, hmade]
    | thrown payload =>
      simp only [drop, hmade]
      by_cases hhandles : s.ledger.handles s.held e = 0
      · rw [if_pos hhandles]
        exact Ledger.gone_eq_some.mpr
          ⟨payload, hmade, (h.balanced.freed_iff hmade).mpr hhandles, rfl⟩
      · rw [if_neg hhandles]
        exact Ledger.gone_eq_none (mt (h.balanced.freed_iff hmade).mp hhandles)

/-- What a program can rely on. -/
structure Conserved (s : Handling π) : Prop where
  /-- What is being handled is there and has a handler. -/
  handled : ∀ e ∈ s.ledger.caught,
    ∃ header, (s.ledger.entry e).header = some header ∧ 1 ≤ header.handlers
  once : s.ledger.caught.Nodup
  shared : ∀ e primary header, s.ledger.entry e = .dependent primary header →
    ∃ payload header', s.ledger.entry primary = .primary payload header'
  /-- Each reference is a handle: that of the exception itself, until it is given
  up, or that of a dependent. -/
  references : ∀ e payload header, s.ledger.entry e = .primary payload header →
    header.references = (if e ∈ s.held then 1 else 0) + s.ledger.dependents e
  /-- The payloads without a handle were dropped once, and no others. -/
  dropped : s.ledger.log.Perm ((List.range s.made.length).filterMap s.drop)
  proceeds : ∀ action, s.Allowed action → ∃ s', s.perform action = .ok s'
  /-- When nothing is on its way or being handled, nothing is left. -/
  freed : s.ledger.caught = [] → s.inFlight = [] → ∀ e, s.ledger.entry e = .freed

/-- Programs that keep to the rules can rely on it, however they go on. -/
theorem reachable_conserved (h : s.Reachable) : s.Conserved := by
  have hs := h.sound
  refine ⟨?_, hs.nodup.of_append_left, ?_, ?_, ?_, ?_, ?_⟩
  · intro e he
    obtain ⟨handlers, hhandlers⟩ := hs.handled e he
    obtain ⟨header, hheader, hcount⟩ := Option.map_eq_some_iff.mp hhandlers
    exact ⟨header, hheader, hcount ▸ Nat.succ_pos handlers⟩
  · intro e primary header he
    exact (hs.balanced.dependent e primary header he).2.2.2
  · intro e payload header he
    obtain ⟨-, -, hcount⟩ := hs.balanced.primary e payload header he
    simpa [Ledger.handles] using hcount
  · have hgone : s.ledger.allGone s.made = (List.range s.made.length).filterMap s.drop :=
      List.filterMap_congr fun e _ => hs.gone_eq_drop e
    rw [← hgone]
    exact hs.balanced.log
  · intro action allowed
    obtain ⟨s', done, -⟩ := hs.perform action allowed
    exact ⟨s', done⟩
  · intro hcaught hflight
    have hheld : s.held = ∅ := by rw [held, hcaught, hflight]; rfl
    exact (hheld ▸ hs.balanced).entry_eq_freed

/-- A payload is handled, thrown again from its handler, and handled outside;
the first handler has been left. -/
theorem reachable_conserved_rethrown :
    ∃ s : Handling Nat, s.Reachable ∧ s.ledger.caught = [1] ∧ s.ledger.log = [] ∧
      s.ledger.entry 0 = .primary 7 ⟨0, 1, .standard, .standard⟩ ∧ s.Conserved := by
  have thrown : Reachable _ := .step (.throwNew 7) .start trivial rfl
  have handled : Reachable _ := .step (.handle 0) thrown (.inl (by decide)) rfl
  have again : Reachable _ := .step .throwAgain handled (List.cons_ne_nil _ _) rfl
  have left : Reachable _ := .step .leave again trivial rfl
  have outside : Reachable _ := .step (.handle 1) left (.inl (by decide)) rfl
  exact ⟨_, outside, by decide, by decide, by decide, reachable_conserved outside⟩

end Handling

end Unwinding
