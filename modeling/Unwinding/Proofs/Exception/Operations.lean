import Unwinding.Proofs.Exception.Entries

/-!
# The operations on native exceptions

An operation that finds what it needs does what is written here. The equations
open the monad of the ledger, so that no other module has to.
-/

namespace Unwinding

namespace Ledger

variable {π : Type} {ledger : Ledger π} {e : Nat}

theorem get_bind {α : Type} (rest : Ledger π → Update π α) :
    (get >>= rest) ledger = rest ledger ledger := rfl

theorem releasePrimary_eq {payload : π} {header : ExceptionHeader}
    (he : ledger.entry e = .primary payload header) :
    releasePrimary e ledger = dropReference e header (record (.dropped payload)) ledger := by
  simp only [releasePrimary, get_bind, he]

theorem release_primary_eq {payload : π} {header : ExceptionHeader}
    (he : ledger.entry e = .primary payload header) : release e ledger = releasePrimary e ledger := by
  simp only [release, get_bind, he]

theorem release_dependent_eq {primary : Nat} {header : ExceptionHeader}
    (he : ledger.entry e = .dependent primary header) :
    release e ledger = dropReference e header (releasePrimary primary) ledger := by
  simp only [release, get_bind, he]

theorem dropReference_ok {header : ExceptionHeader} {freed : Update π Unit} {ledger' : Ledger π}
    (h : dropReference e header freed ledger = .ok () ledger') :
    (header.references = 1 ∧
      freed { ledger with entries := ledger.entries.set e .freed } = .ok () ledger') ∨
    ∃ references, header.references = references + 2 ∧ ledger' = { ledger with
      entries := ledger.entries.modify e (·.mapHeader ({ · with references := references + 1 })) } := by
  unfold dropReference at h
  rcases hr : header.references with _ | _ | references <;> simp only [hr] at h
  · cases h
  · exact .inl ⟨rfl, h⟩
  · cases h
    exact .inr ⟨references, rfl, rfl⟩

theorem delete_eq (h : ∀ kind wanted, ledger.entry e ≠ .foreign kind wanted) :
    delete e ledger = release e ledger := by
  cases he : ledger.entry e with
  | foreign kind wanted => exact absurd he (h kind wanted)
  | _ => simp only [delete, get_bind, he]

theorem beginCatch_eq {handlers : Nat} (h : ledger.handlersOf e = some handlers) :
    beginCatch e ledger = .ok (ledger.payload e)
      { ledger with
        entries := ledger.entries.modify e
          (·.mapHeader fun header => { header with handlers := header.handlers + 1 })
        caught := if ledger.current = some e then ledger.caught else e :: ledger.caught
        uncaught := ledger.uncaught - 1 } := by
  obtain ⟨_, -, ⟨_, he⟩ | ⟨_, he⟩⟩ := native_of_handlersOf h <;>
    simp only [beginCatch, get_bind, he]
  all_goals
    by_cases hc : ledger.current = some e
    · simp only [hc, ne_eq, not_true_eq_false, if_false, if_true]
      rfl
    · simp only [hc, ne_eq, not_false_eq_true, if_true, if_false]
      rfl

theorem endCatch_none (h : ledger.current = none) : endCatch ledger = .ok () ledger := by
  simp only [endCatch, get_bind, h]
  rfl

theorem endCatch_some {handlers : Nat} (h : ledger.current = some e)
    (hhandlers : ledger.handlersOf e = some (handlers + 1)) :
    endCatch ledger =
      if handlers = 0 then
        release e { ledger with
          entries := ledger.entries.modify e (·.mapHeader ({ · with handlers }))
          caught := ledger.caught.tail }
      else .ok () { ledger with
        entries := ledger.entries.modify e (·.mapHeader ({ · with handlers })) } := by
  obtain ⟨header, hcount, ⟨_, he⟩ | ⟨_, he⟩⟩ := native_of_handlersOf hhandlers <;>
    simp only [endCatch, get_bind, h, he, LedgerEntry.header, Option.map_some, hcount]
  all_goals
    by_cases hz : handlers = 0
    · simp only [hz, if_true]
      rfl
    · simp only [hz, if_false]
      rfl

theorem addDependent_eq {payload : π} {header : ExceptionHeader}
    (he : ledger.entry e = .primary payload header) :
    addDependent e ledger = .ok ledger.entries.length
      { ledger with
        entries := ledger.entries.modify e
          (·.mapHeader ({ · with references := header.references + 1 })) ++
          [.dependent e { header with handlers := 0, references := 1 }] } := by
  simp only [addDependent, get_bind, he]
  change EStateM.Result.ok _ _ = _
  rw [List.length_modify]

theorem beginRethrow_eq {payload : π} {header : ExceptionHeader}
    (h : ledger.current = some e) (hnative : ∀ kind wanted, ledger.entry e ≠ .foreign kind wanted)
    (hprimary : ledger.entry (ledger.primaryOf e) = .primary payload header) :
    beginRethrow ledger = .ok ledger.entries.length
      { ledger with
        entries := ledger.entries.modify (ledger.primaryOf e)
          (·.mapHeader ({ · with references := header.references + 1 })) ++
          [.dependent (ledger.primaryOf e) { header with handlers := 0, references := 1 }]
        uncaught := ledger.uncaught + 1 } := by
  have hadd : addDependent (ledger.primaryOf e) { ledger with uncaught := ledger.uncaught + 1 } = _ :=
    addDependent_eq hprimary
  cases he : ledger.entry e with
  | foreign kind wanted => exact absurd he (hnative kind wanted)
  | _ =>
    simp only [beginRethrow, get_bind, h, he]
    exact hadd

end Ledger

end Unwinding
