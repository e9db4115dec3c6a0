import Unwinding.Proofs.Exception.Handling

/-!
# Handlers within handlers

A handler may be entered and left again while others are running, for an
exception that is handled already. Such a bracket should leave no trace. It does
not if the exception is handled further out: entering the handler puts the
exception on the stack once more, and leaving it does not take it off, because
there is a handler left.
-/

namespace Unwinding

namespace Ledger

variable {π : Type}

/-- Enters a handler and leaves it. -/
def bracket (exception : Nat) : Update π Unit := do
  let _ ← beginCatch exception
  endCatch

def brackets : List Nat → Update π Unit
  | [] => pure ()
  | exception :: exceptions => do
    bracket exception
    brackets exceptions

/-- A handler is running for the exception. -/
def Handled (ledger : Ledger π) (e : Nat) : Prop :=
  ∃ handlers, ledger.handlersOf e = some (handlers + 1)

/-- The same exceptions are handled, with the same counts, and nothing happened
that others notice. -/
structure Restored (ledger ledger' : Ledger π) : Prop where
  caught : ledger'.caught = ledger.caught
  entries : ledger'.entries = ledger.entries
  log : ledger'.log = ledger.log

section Brackets

variable {ledger ledger' : Ledger π} {e handlers : Nat}

/-- One handler more and then as many as there were is no change. -/
theorem modify_handlers_twice (h : ledger.handlersOf e = some handlers) :
    (ledger.entries.modify e
        (·.mapHeader fun header => { header with handlers := header.handlers + 1 })).modify e
      (·.mapHeader ({ · with handlers })) = ledger.entries := by
  obtain ⟨header, rfl, hnative⟩ := native_of_handlersOf h
  refine List.ext_getElem? fun e' => ?_
  by_cases he : e' = e
  · subst he
    have hlive : ledger.entry e' ≠ .freed := by
      rcases hnative with ⟨_, hentry⟩ | ⟨_, hentry⟩ <;> simp [hentry]
    have hlt := lt_length_of_entry hlive
    rw [List.getElem?_modify_eq, List.getElem?_modify_eq, List.getElem?_eq_getElem hlt,
      ← entry_eq_getElem hlt]
    rcases hnative with ⟨_, hentry⟩ | ⟨_, hentry⟩ <;> rw [hentry] <;> rfl
  · rw [List.getElem?_modify_ne _ _ (Ne.symm he), List.getElem?_modify_ne _ _ (Ne.symm he)]

/-- The stack with the exception on top. -/
def caughtWith (ledger : Ledger π) (e : Nat) : List Nat :=
  if ledger.current = some e then ledger.caught else e :: ledger.caught

theorem head?_caughtWith (ledger : Ledger π) (e : Nat) :
    (ledger.caughtWith e).head? = some e := by
  unfold caughtWith
  split
  · rename_i hcurrent
    exact hcurrent
  · rfl

theorem suffix_caughtWith (ledger : Ledger π) (e : Nat) :
    ledger.caught <:+ ledger.caughtWith e := by
  unfold caughtWith
  split
  · exact List.suffix_rfl
  · exact List.suffix_cons e ledger.caught

theorem mem_caughtWith {e' : Nat} (h : e' ∈ ledger.caughtWith e) : e' = e ∨ e' ∈ ledger.caught := by
  unfold caughtWith at h
  split at h
  · exact .inr h
  · exact List.mem_cons.mp h

theorem caughtWith_eq_caught : ledger.caughtWith e = ledger.caught ↔ ledger.current = some e := by
  unfold caughtWith
  split
  · rename_i hcurrent
    exact iff_of_true rfl hcurrent
  · rename_i hcurrent
    exact iff_of_false (List.cons_ne_self e ledger.caught) hcurrent

/-- Only the stack and the number of uncaught exceptions are changed by a bracket,
unless the exception had no handler before. -/
theorem bracket_eq (h : ledger.handlersOf e = some handlers) :
    bracket e ledger =
      if handlers = 0 then
        release e { ledger with
          caught := (ledger.caughtWith e).tail, uncaught := ledger.uncaught - 1 }
      else .ok () { ledger with
        caught := ledger.caughtWith e, uncaught := ledger.uncaught - 1 } := by
  let entered : Ledger π :=
    { ledger with
      entries := ledger.entries.modify e
        (·.mapHeader fun header => { header with handlers := header.handlers + 1 })
      caught := ledger.caughtWith e
      uncaught := ledger.uncaught - 1 }
  have henter : beginCatch e ledger = .ok (ledger.payload e) entered := beginCatch_eq h
  have hcurrent : entered.current = some e := head?_caughtWith ledger e
  have hhandlers : entered.handlersOf e = some (handlers + 1) := by
    rw [handlersOf_modify (g := (· + 1)) rfl fun _ => rfl, if_pos rfl, h, Option.map_some]
  have hleave : bracket e ledger = endCatch entered := by
    change EStateM.bind (beginCatch e) (fun _ => endCatch) ledger = endCatch entered
    rw [EStateM.bind, henter]
  rw [hleave, endCatch_some hcurrent hhandlers]
  simp only [entered, modify_handlers_twice h]

theorem releasePrimary_keeps_freed {e' : Nat} (he : ledger.entry e = .freed)
    (h : releasePrimary e' ledger = .ok () ledger') : ledger'.entry e = .freed := by
  cases hp : ledger.entry e' with
  | primary payload header =>
    have hne : e ≠ e' := by
      rintro rfl
      rw [he] at hp
      cases hp
    have hlt : e' < ledger.entries.length := lt_length_of_entry (by simp [hp])
    rw [releasePrimary_eq hp] at h
    rcases dropReference_ok h with ⟨-, hrecord⟩ | ⟨references, -, rfl⟩
    · cases hrecord
      rw [entry_set rfl hlt, if_neg hne, he]
    · rw [entry_modify rfl, if_neg hne, he]
  | _ =>
    simp only [releasePrimary, get_bind, hp] at h
    cases h

/-- Giving up a reference of an exception leaves a trace on it. -/
theorem dropReference_changes {header : ExceptionHeader} {freed : Update π Unit}
    (hheader : (ledger.entry e).header = some header)
    (hfreed : ∀ before, entry before e = .freed → freed before = .ok () ledger' →
      ledger'.entry e = .freed)
    (h : dropReference e header freed ledger = .ok () ledger') :
    ledger'.entry e ≠ ledger.entry e := by
  intro hsame
  have hlive : ledger.entry e ≠ .freed := by
    intro hgone
    rw [hgone] at hheader
    cases hheader
  rcases dropReference_ok h with ⟨-, hrun⟩ | ⟨references, hreferences, rfl⟩
  · have hset : entry { ledger with entries := ledger.entries.set e .freed } e = .freed := by
      rw [entry_set rfl (lt_length_of_entry hlive), if_pos rfl]
    exact hlive (hsame ▸ hfreed _ hset hrun)
  · have hheader' := congrArg LedgerEntry.header hsame
    rw [entry_modify rfl, if_pos rfl, LedgerEntry.header_mapHeader, hheader,
      Option.map_some] at hheader'
    have hcount := congrArg ExceptionHeader.references (Option.some.inj hheader')
    dsimp only at hcount
    omega

theorem release_changes (hhandlers : ledger.handlersOf e = some handlers)
    (h : release e ledger = .ok () ledger') : ledger'.entries ≠ ledger.entries := by
  have hentry : ledger'.entry e ≠ ledger.entry e := by
    obtain ⟨header, -, ⟨payload, he⟩ | ⟨primary, he⟩⟩ := native_of_handlersOf hhandlers
    · rw [release_primary_eq he, releasePrimary_eq he] at h
      refine dropReference_changes (by rw [he]; rfl) ?_ h
      intro before hgone hrecord
      cases hrecord
      exact hgone
    · rw [release_dependent_eq he] at h
      exact dropReference_changes (by rw [he]; rfl) (fun _ => releasePrimary_keeps_freed) h
  intro heq
  exact hentry (by rw [entry, heq, entry])

theorem bracket_handled (h : ledger.Handled e) :
    bracket e ledger = .ok () { ledger with
      caught := ledger.caughtWith e, uncaught := ledger.uncaught - 1 } := by
  obtain ⟨handlers, hhandlers⟩ := h
  rw [bracket_eq hhandlers, if_neg (Nat.succ_ne_zero handlers)]

theorem bracket_restored_iff (h : ledger.handlersOf e = some handlers) :
    (∃ ledger', bracket e ledger = .ok () ledger' ∧ ledger.Restored ledger') ↔
      ledger.current = some e ∧ 0 < handlers := by
  rw [bracket_eq h]
  cases handlers with
  | zero =>
    rw [if_pos rfl]
    refine iff_of_false ?_ fun hboth => Nat.lt_irrefl 0 hboth.2
    rintro ⟨ledger', hrun, hrestored⟩
    have hhandlers : handlersOf { ledger with
      caught := (ledger.caughtWith e).tail, uncaught := ledger.uncaught - 1 } e = some 0 := h
    exact release_changes hhandlers hrun hrestored.entries
  | succ handlers =>
    rw [if_neg (Nat.succ_ne_zero handlers)]
    constructor
    · rintro ⟨ledger', hrun, hrestored⟩
      cases hrun
      exact ⟨caughtWith_eq_caught.mp hrestored.caught, Nat.succ_pos handlers⟩
    · rintro ⟨hcurrent, -⟩
      exact ⟨_, rfl, caughtWith_eq_caught.mpr hcurrent, rfl, rfl⟩

theorem brackets_handled {exceptions : List Nat} (h : ∀ e ∈ exceptions, ledger.Handled e) :
    ∃ ledger', brackets exceptions ledger = .ok () ledger' ∧
      ledger'.entries = ledger.entries ∧ ledger'.log = ledger.log ∧
      (∀ e ∈ ledger'.caught, e ∈ ledger.caught ∨ e ∈ exceptions) ∧
      ledger.caught <:+ ledger'.caught ∧
      (ledger'.caught = ledger.caught ↔ ∀ e ∈ exceptions, ledger.current = some e) := by
  induction exceptions generalizing ledger with
  | nil => exact ⟨ledger, rfl, rfl, rfl, fun _ => .inl, List.suffix_rfl, by simp⟩
  | cons e exceptions ih =>
    rw [List.forall_mem_cons] at h
    let entered : Ledger π :=
      { ledger with caught := ledger.caughtWith e, uncaught := ledger.uncaught - 1 }
    have hrun : brackets (e :: exceptions) ledger = brackets exceptions entered := by
      change EStateM.bind (bracket e) (fun _ => brackets exceptions) ledger = _
      rw [EStateM.bind, bracket_handled h.1]
    have hlater : ∀ e ∈ exceptions, entered.Handled e := h.2
    obtain ⟨ledger', hrest, hentries, hlog, hmem, hsuffix, hsame⟩ := ih hlater
    refine ⟨ledger', hrun.trans hrest, hentries, hlog, ?_, ?_, ?_⟩
    · intro e' he'
      rcases hmem e' he' with hentered | hlater
      · rcases mem_caughtWith hentered with rfl | hbefore
        · exact .inr List.mem_cons_self
        · exact .inl hbefore
      · exact .inr (List.mem_cons_of_mem e hlater)
    · exact (suffix_caughtWith ledger e).trans hsuffix
    · rw [List.forall_mem_cons]
      by_cases hcurrent : ledger.current = some e
      · have heq : entered.caught = ledger.caught := caughtWith_eq_caught.mpr hcurrent
        have hcurrent' : entered.current = ledger.current := by rw [current, heq, current]
        rw [heq, hcurrent'] at hsame
        simpa only [hcurrent, true_and] using hsame
      · refine iff_of_false ?_ fun hall => hcurrent hall.1
        intro heq
        rw [heq] at hsuffix
        have hback := suffix_caughtWith ledger e
        exact hcurrent (caughtWith_eq_caught.mp (hsuffix.eq_of_length_le hback.length_le))

theorem Handled.live (h : ledger.Handled e) : ledger.entry e ≠ .freed := by
  obtain ⟨handlers, hhandlers⟩ := h
  obtain ⟨header, -, ⟨_, he⟩ | ⟨_, he⟩⟩ := native_of_handlersOf hhandlers <;> simp [he]

end Brackets

/-- A bracket around a native exception leaves no trace exactly when the exception
is on top of the stack and has a handler. Brackets around handled exceptions free
nothing, however many follow each other, but the stack is the same afterwards only
if all of them were around the exception on top. -/
theorem bracket_neutral_iff (ledger : Ledger π) :
    (∀ e handlers, ledger.handlersOf e = some handlers →
      ((∃ ledger', bracket e ledger = .ok () ledger' ∧ ledger.Restored ledger') ↔
        ledger.current = some e ∧ 0 < handlers)) ∧
    ∀ exceptions : List Nat, (∀ e ∈ exceptions, ledger.Handled e) →
      ∃ ledger', brackets exceptions ledger = .ok () ledger' ∧
        ledger'.entries = ledger.entries ∧ ledger'.log = ledger.log ∧
        (∀ e ∈ ledger'.caught, ledger'.entry e = .freed → e ∈ ledger.caught) ∧
        (ledger'.caught = ledger.caught ↔ ∀ e ∈ exceptions, ledger.current = some e) := by
  refine ⟨fun e handlers => bracket_restored_iff, fun exceptions h => ?_⟩
  obtain ⟨ledger', hrun, hentries, hlog, hmem, -, hsame⟩ := brackets_handled h
  refine ⟨ledger', hrun, hentries, hlog, ?_, hsame⟩
  intro e he hfreed
  have hfreed' : ledger.entry e = .freed := by rwa [entry, hentries] at hfreed
  exact (hmem e he).resolve_right fun hin => (h e hin).live hfreed'

end Ledger

namespace Handling

/-- An exception is thrown and handled while another one is handled. -/
def nested : Handling Nat where
  ledger :=
    { Ledger.empty with
      entries := [.primary 7 ⟨1, 1, .standard, .standard⟩, .primary 8 ⟨1, 1, .standard, .standard⟩]
      caught := [1, 0] }
  inFlight := []
  made := [.thrown 7, .thrown 8]

theorem reachable_nested : nested.Reachable := by
  have first : Reachable _ := .step (.throwNew 7) .start trivial rfl
  have outer : Reachable _ := .step (.handle 0) first (.inl (by decide)) rfl
  have second : Reachable _ := .step (.throwNew 8) outer trivial rfl
  exact .step (.handle 1) second (.inl (by decide)) rfl

/-- The inner exception may get more handlers within its own. -/
theorem bracket_neutral_iff_nested :
    nested.Reachable ∧
      ((∃ ledger', Ledger.bracket 1 nested.ledger = .ok () ledger' ∧
          nested.ledger.Restored ledger') ↔
        nested.ledger.current = some 1 ∧ 0 < 1) ∧
      ∃ ledger', Ledger.brackets [1, 1] nested.ledger = .ok () ledger' ∧
        ledger'.caught = nested.ledger.caught := by
  have hhandled : ∀ e ∈ [1, 1], nested.ledger.Handled e := by
    intro e he
    obtain rfl : e = 1 := by simpa using he
    exact ⟨0, rfl⟩
  obtain ⟨ledger', hrun, -, -, -, hsame⟩ :=
    (Ledger.bracket_neutral_iff nested.ledger).2 [1, 1] hhandled
  refine ⟨reachable_nested, (Ledger.bracket_neutral_iff nested.ledger).1 1 1 rfl, ledger', hrun, ?_⟩
  exact hsame.mpr (by decide)

/-- A bracket around the outer exception leaves it on the stack a second time. The
next handler that is left frees it, and it is on the stack still. -/
theorem bracket_leaves_freed :
    nested.Reachable ∧ 0 ∈ nested.ledger.caught ∧
      ∃ ledger' ledger'' : Ledger Nat, Ledger.bracket 0 nested.ledger = .ok () ledger' ∧
        ledger'.caught = [0, 1, 0] ∧ ¬ nested.ledger.Restored ledger' ∧
        Ledger.endCatch ledger' = .ok () ledger'' ∧ ledger''.caught = [1, 0] ∧
        ledger''.entry 0 = .freed ∧ ledger''.log = [.dropped 7] := by
  refine ⟨reachable_nested, by decide, _, _, rfl, rfl, ?_, rfl, rfl, rfl, rfl⟩
  intro hrestored
  exact absurd hrestored.caught (by decide)

end Handling

end Unwinding
