import Mathlib.Data.Finset.Card
import Unwinding.Proofs.Exception.Operations

/-!
# Counting what is on its way

A thread meets exceptions of its own and those of other runtimes. An exception
is in flight from the moment it is thrown, or thrown again, until a handler is
entered for it. The ledger does not know which exceptions these are, it keeps a
number, and it changes the number in three places. Here it is said for which
programs the number is right in all states that they come to. It goes wrong with
two kinds of step only: entering a handler for a foreign exception that was
thrown again, which is never taken off the number, and entering one more handler
for a native exception that is not in flight, which is taken off the number while
another exception is.
-/

namespace Unwinding

/-- What a program does with exceptions of any runtime. -/
inductive TrafficAction (π : Type) where
  | throwNew (payload : π)
  /-- Another runtime raises an exception. -/
  | arrive (kind : Word) (wanted : Bool)
  | handle (exception : Nat)
  | leave
  | throwAgain
  deriving Repr, DecidableEq

/-- A thread's ledger, with the exceptions that are on their way. -/
structure Traffic (π : Type) where
  ledger : Ledger π
  /-- Thrown, or thrown again, and not handled since. -/
  inFlight : Finset Nat

namespace Ledger

variable {π : Type} {ledger ledger' ledger'' : Ledger π} {e : Nat}

/-- The exception belongs to another runtime. -/
def Foreign (ledger : Ledger π) (e : Nat) : Prop :=
  ∃ kind wanted, ledger.entry e = .foreign kind wanted

theorem Foreign.lt_length (h : ledger.Foreign e) : e < ledger.entries.length := by
  obtain ⟨kind, wanted, he⟩ := h
  exact lt_length_of_entry (by rw [he]; simp)

/-- No exception comes, none goes on its way, and none changes hands. -/
structure Quiet (ledger ledger' : Ledger π) : Prop where
  caught : ledger'.caught = ledger.caught
  uncaught : ledger'.uncaught = ledger.uncaught
  length : ledger'.entries.length = ledger.entries.length
  foreign : ∀ e, ledger'.Foreign e → ledger.Foreign e

theorem Quiet.trans (h : ledger.Quiet ledger') (h' : ledger'.Quiet ledger'') :
    ledger.Quiet ledger'' where
  caught := h'.caught.trans h.caught
  uncaught := h'.uncaught.trans h.uncaught
  length := h'.length.trans h.length
  foreign e he := h.foreign e (h'.foreign e he)

theorem foreign_modify {f : ExceptionHeader → ExceptionHeader}
    (h : ledger'.entries = ledger.entries.modify e (·.mapHeader f)) (e' : Nat) :
    ledger'.Foreign e' ↔ ledger.Foreign e' := by
  unfold Foreign
  rw [entry_modify h]
  split
  · simp [LedgerEntry.mapHeader_eq_foreign]
  · exact Iff.rfl

theorem foreign_append {new : LedgerEntry π} (h : ledger'.entries = ledger.entries ++ [new])
    (hnew : ∀ kind wanted, new ≠ .foreign kind wanted) {e' : Nat} (he' : ledger'.Foreign e') :
    ledger.Foreign e' := by
  obtain ⟨kind, wanted, hentry⟩ := he'
  rw [entry_append h] at hentry
  split at hentry
  · exact absurd hentry (hnew kind wanted)
  · exact ⟨kind, wanted, hentry⟩

theorem quiet_adjust (ledger : Ledger π) (e : Nat) (f : ExceptionHeader → ExceptionHeader) :
    ledger.Quiet { ledger with entries := ledger.entries.modify e (·.mapHeader f) } where
  caught := rfl
  uncaught := rfl
  length := List.length_modify ..
  foreign e' := (foreign_modify rfl e').mp

theorem quiet_put (ledger : Ledger π) (e : Nat) :
    ledger.Quiet { ledger with entries := ledger.entries.set e .freed } where
  caught := rfl
  uncaught := rfl
  length := List.length_set ..
  foreign e' := by
    rintro ⟨kind, wanted, he'⟩
    by_cases hlt : e < ledger.entries.length
    · rw [entry_set rfl hlt] at he'
      split at he'
      · cases he'
      · exact ⟨kind, wanted, he'⟩
    · rw [List.set_eq_of_length_le (Nat.not_lt.mp hlt)] at he'
      exact ⟨kind, wanted, he'⟩

theorem quiet_dropReference {header : ExceptionHeader} {freed : Update π Unit}
    (hfreed : ∀ ledger ledger' : Ledger π, freed ledger = .ok () ledger' → ledger.Quiet ledger')
    (h : dropReference e header freed ledger = .ok () ledger') : ledger.Quiet ledger' := by
  rcases dropReference_ok h with ⟨-, hrun⟩ | ⟨references, -, rfl⟩
  · exact (quiet_put ledger e).trans (hfreed _ _ hrun)
  · exact quiet_adjust ledger e _

theorem quiet_releasePrimary (h : releasePrimary e ledger = .ok () ledger') :
    ledger.Quiet ledger' := by
  cases he : ledger.entry e with
  | primary payload header =>
    rw [releasePrimary_eq he] at h
    refine quiet_dropReference ?_ h
    intro before after hrecord
    cases hrecord
    exact ⟨rfl, rfl, rfl, fun _ hforeign => hforeign⟩
  | _ =>
    simp only [releasePrimary, get_bind, he] at h
    cases h

theorem quiet_release (h : release e ledger = .ok () ledger') : ledger.Quiet ledger' := by
  cases he : ledger.entry e with
  | dependent primary header =>
    rw [release_dependent_eq he] at h
    exact quiet_dropReference (fun _ _ => quiet_releasePrimary) h
  | _ =>
    simp only [release, get_bind, he] at h
    exact quiet_releasePrimary h

theorem exists_handlersOf (hforeign : ¬ ledger.Foreign e) (hlive : ledger.entry e ≠ .freed) :
    ∃ handlers, ledger.handlersOf e = some handlers := by
  cases he : ledger.entry e with
  | primary payload header => exact ⟨header.handlers, by rw [handlersOf, he]; rfl⟩
  | dependent primary header => exact ⟨header.handlers, by rw [handlersOf, he]; rfl⟩
  | foreign kind wanted => exact absurd ⟨kind, wanted, he⟩ hforeign
  | freed => exact absurd he hlive

theorem beginCatch_foreign {answer : Option π} (he : ledger.Foreign e)
    (h : beginCatch e ledger = .ok answer ledger') :
    ledger.caught = [] ∧ ledger' = { ledger with caught := [e] } := by
  obtain ⟨kind, wanted, he⟩ := he
  simp only [beginCatch, get_bind, he] at h
  by_cases hcaught : ledger.caught = []
  · rw [if_neg (not_not_intro hcaught)] at h
    cases h
    exact ⟨hcaught, by dsimp only; rw [hcaught]⟩
  · rw [if_pos hcaught] at h
    cases h

theorem beginCatch_native {answer : Option π} (he : ¬ ledger.Foreign e)
    (h : beginCatch e ledger = .ok answer ledger') :
    e < ledger.entries.length ∧
      ledger' = { ledger with
        entries := ledger.entries.modify e
          (·.mapHeader fun header => { header with handlers := header.handlers + 1 })
        caught := if ledger.current = some e then ledger.caught else e :: ledger.caught
        uncaught := ledger.uncaught - 1 } := by
  have hlive : ledger.entry e ≠ .freed := by
    intro hfreed
    simp only [beginCatch, get_bind, hfreed] at h
    cases h
  obtain ⟨handlers, hhandlers⟩ := exists_handlersOf he hlive
  rw [beginCatch_eq hhandlers] at h
  cases h
  exact ⟨lt_length_of_entry hlive, rfl⟩

theorem endCatch_foreign {kind : Word} {wanted : Bool} (hcurrent : ledger.current = some e)
    (he : ledger.entry e = .foreign kind wanted) :
    endCatch ledger = .ok () { ledger with
      caught := ledger.caught.tail
      log := ledger.log ++ if wanted then [.returned kind] else [] } := by
  have hdelete : endCatch ledger = delete e { ledger with caught := ledger.caught.tail } := by
    simp only [endCatch, get_bind, hcurrent, he]
    rfl
  have he' : entry { ledger with caught := ledger.caught.tail } e = .foreign kind wanted := he
  rw [hdelete]
  simp only [delete, get_bind, he']
  cases wanted with
  | true => rfl
  | false =>
    rw [if_neg Bool.false_ne_true, if_neg Bool.false_ne_true, List.append_nil]
    rfl

theorem endCatch_ok (h : endCatch ledger = .ok () ledger') :
    ∃ caught, caught.Sublist ledger.caught ∧ { ledger with caught }.Quiet ledger' := by
  cases hcurrent : ledger.current with
  | none =>
    rw [endCatch_none hcurrent] at h
    cases h
    exact ⟨ledger.caught, .refl _, rfl, rfl, rfl, fun _ he => he⟩
  | some e =>
    by_cases hforeign : ledger.Foreign e
    · obtain ⟨kind, wanted, he⟩ := hforeign
      rw [endCatch_foreign hcurrent he] at h
      cases h
      exact ⟨ledger.caught.tail, List.tail_sublist _, rfl, rfl, rfl, fun _ he => he⟩
    · have hlive : ledger.entry e ≠ .freed := by
        intro hfreed
        simp only [endCatch, get_bind, hcurrent, hfreed, LedgerEntry.header] at h
        cases h
      obtain ⟨handlers, hhandlers⟩ := exists_handlersOf hforeign hlive
      cases handlers with
      | zero =>
        obtain ⟨header, hcount, ⟨_, he⟩ | ⟨_, he⟩⟩ := native_of_handlersOf hhandlers <;>
          simp only [endCatch, get_bind, hcurrent, he, LedgerEntry.header, Option.map_some,
            hcount] at h <;>
          cases h
      | succ handlers =>
        rw [endCatch_some hcurrent hhandlers] at h
        split at h
        · refine ⟨ledger.caught.tail, List.tail_sublist _, ?_⟩
          exact (quiet_adjust { ledger with caught := ledger.caught.tail } e _).trans
            (quiet_release h)
        · cases h
          exact ⟨ledger.caught, .refl _, quiet_adjust ledger e _⟩

theorem beginRethrow_foreign {e answer : Nat} (hcurrent : ledger.current = some e)
    (he : ledger.Foreign e) (h : beginRethrow ledger = .ok answer ledger') :
    answer = e ∧
      ledger' = { ledger with caught := ledger.caught.tail, uncaught := ledger.uncaught + 1 } := by
  obtain ⟨kind, wanted, he⟩ := he
  simp only [beginRethrow, get_bind, hcurrent, he] at h
  cases h
  exact ⟨rfl, rfl⟩

theorem beginRethrow_native {e answer : Nat} (hcurrent : ledger.current = some e)
    (he : ¬ ledger.Foreign e) (h : beginRethrow ledger = .ok answer ledger') :
    answer = ledger.entries.length ∧ ledger'.caught = ledger.caught ∧
      ledger'.uncaught = ledger.uncaught + 1 ∧
      ledger'.entries.length = ledger.entries.length + 1 ∧
      ∀ e, ledger'.Foreign e → ledger.Foreign e := by
  have hnative : ∀ kind wanted, ledger.entry e ≠ .foreign kind wanted :=
    fun kind wanted hentry => he ⟨kind, wanted, hentry⟩
  cases hp : ledger.entry (ledger.primaryOf e) with
  | primary payload header =>
    rw [beginRethrow_eq hcurrent hnative hp] at h
    cases h
    refine ⟨rfl, rfl, rfl, ?_, ?_⟩
    · simp
    · intro e' he'
      let referenced : Ledger π := { ledger with
        entries := ledger.entries.modify (ledger.primaryOf e)
          (·.mapHeader ({ · with references := header.references + 1 })) }
      have hmodified : referenced.Foreign e' := foreign_append rfl (by simp) he'
      exact (foreign_modify rfl e').mp hmodified
  | _ =>
    have hfails : beginRethrow ledger =
        addDependent (ledger.primaryOf e) { ledger with uncaught := ledger.uncaught + 1 } := by
      cases hentry : ledger.entry e with
      | foreign kind wanted => exact absurd hentry (hnative kind wanted)
      | _ =>
        simp only [beginRethrow, get_bind, hcurrent, hentry]
        rfl
    have hp' : entry { ledger with uncaught := ledger.uncaught + 1 } (ledger.primaryOf e) = _ := hp
    rw [hfails] at h
    simp only [addDependent, get_bind, hp'] at h
    cases h

end Ledger

namespace Traffic

variable {π α : Type}

def start : Traffic π := ⟨Ledger.empty, ∅⟩

/-- What follows an operation on the ledger. -/
def after (s : Traffic π) (operation : Ledger.Update π α) (inFlight : α → Finset Nat) :
    Except LedgerFault (Traffic π) :=
  match operation s.ledger with
  | .ok answer ledger => .ok ⟨ledger, inFlight answer⟩
  | .error fault _ => .error fault

def perform (s : Traffic π) : TrafficAction π → Except LedgerFault (Traffic π)
  | .throwNew payload => s.after (Ledger.beginThrow payload) fun e => insert e s.inFlight
  | .arrive kind wanted => s.after (Ledger.addForeign kind wanted) fun _ => s.inFlight
  | .handle e => s.after (Ledger.beginCatch e) fun _ => s.inFlight.erase e
  | .leave => s.after Ledger.endCatch fun _ => s.inFlight
  | .throwAgain => s.after Ledger.beginRethrow fun e => insert e s.inFlight

/-- A program got from the start to a state by these steps. Each is written with
the state that it was taken in. -/
inductive Run : List (Traffic π × TrafficAction π) → Traffic π → Prop where
  | start : Run [] start
  | step {steps : List (Traffic π × TrafficAction π)} {s s' : Traffic π}
    (action : TrafficAction π) (h : Run steps s) (done : s.perform action = .ok s') :
    Run (steps ++ [(s, action)]) s'

/-- The ledger has the number of exceptions that are on their way. -/
def Counted (s : Traffic π) : Prop := s.ledger.uncaught = s.inFlight.card

/-- The ledger's number goes wrong: a foreign exception that was thrown again is
left on it, or another exception is taken off it for one that is not on its way. -/
def Miscounts (s : Traffic π) : TrafficAction π → Prop
  | .handle e =>
    s.ledger.Foreign e ∧ e ∈ s.inFlight ∨
      ¬ s.ledger.Foreign e ∧ e ∉ s.inFlight ∧ s.inFlight.Nonempty
  | _ => False

section Steps

variable {s s' : Traffic π} {e : Nat}

/-- A foreign exception is either handled, and by one handler, or on its way. -/
structure Sound (s : Traffic π) : Prop where
  inFlight : ∀ e ∈ s.inFlight, e < s.ledger.entries.length
  caught : ∀ e ∈ s.ledger.caught, e < s.ledger.entries.length
  foreign : ∀ e ∈ s.ledger.caught, s.ledger.Foreign e →
    e ∉ s.inFlight ∧ s.ledger.caught.count e = 1

theorem Sound.start : (start : Traffic π).Sound where
  inFlight _ h := absurd h (Finset.notMem_empty _)
  caught _ h := nomatch h
  foreign _ h := nomatch h

theorem Sound.next_not_inFlight (h : s.Sound) : s.ledger.entries.length ∉ s.inFlight :=
  fun hmem => Nat.lt_irrefl _ (h.inFlight _ hmem)

theorem Sound.next_not_caught (h : s.Sound) : s.ledger.entries.length ∉ s.ledger.caught :=
  fun hmem => Nat.lt_irrefl _ (h.caught _ hmem)

/-- No handler is entered, and what comes to be on its way is not handled. -/
theorem Sound.proceed (h : s.Sound) {ledger' : Ledger π} {inFlight' : Finset Nat}
    (hlength : s.ledger.entries.length ≤ ledger'.entries.length)
    (hcaught : ledger'.caught.Sublist s.ledger.caught)
    (hforeign : ∀ e, e < s.ledger.entries.length → ledger'.Foreign e → s.ledger.Foreign e)
    (hflight : ∀ e ∈ inFlight', e ∈ s.inFlight ∨ e < ledger'.entries.length ∧ e ∉ ledger'.caught) :
    Sound ⟨ledger', inFlight'⟩ where
  inFlight e he := by
    rcases hflight e he with hold | ⟨hlt, -⟩
    · exact Nat.lt_of_lt_of_le (h.inFlight e hold) hlength
    · exact hlt
  caught e he := Nat.lt_of_lt_of_le (h.caught e (hcaught.subset he)) hlength
  foreign e he hf := by
    have hmem := hcaught.subset he
    obtain ⟨hnot, hcount⟩ := h.foreign e hmem (hforeign e (h.caught e hmem) hf)
    constructor
    · intro he'
      rcases hflight e he' with hold | ⟨-, hnew⟩
      · exact hnot hold
      · exact hnew he
    · have hle := hcaught.count_le e
      have hpos := List.count_pos_iff.mpr he
      exact Nat.le_antisymm (hcount ▸ hle) hpos

theorem counted_launch {ledger' : Ledger π} (hnot : e ∉ s.inFlight)
    (hcount : ledger'.uncaught = s.ledger.uncaught + 1) :
    Counted ⟨ledger', insert e s.inFlight⟩ ↔ s.Counted := by
  unfold Counted
  rw [hcount, Finset.card_insert_of_notMem hnot, Nat.add_right_cancel_iff]

theorem Sound.throwNew (h : s.Sound) {payload : π} (done : s.perform (.throwNew payload) = .ok s') :
    s'.Sound ∧ (s'.Counted ↔ s.Counted) := by
  cases done
  refine ⟨h.proceed ?_ (.refl _) ?_ ?_, counted_launch h.next_not_inFlight rfl⟩
  · simp
  · intro e _ he
    exact Ledger.foreign_append rfl (by simp) he
  · intro e he
    rcases Finset.mem_insert.mp he with rfl | hold
    · exact .inr ⟨by simp, h.next_not_caught⟩
    · exact .inl hold

theorem Sound.arrive (h : s.Sound) {kind : Word} {wanted : Bool}
    (done : s.perform (.arrive kind wanted) = .ok s') : s'.Sound ∧ (s'.Counted ↔ s.Counted) := by
  cases done
  refine ⟨h.proceed ?_ (.refl _) ?_ fun e he => .inl he, Iff.rfl⟩
  · simp
  · rintro e hlt ⟨kind', wanted', he⟩
    rw [Ledger.entry_append rfl, if_neg (Nat.ne_of_lt hlt)] at he
    exact ⟨kind', wanted', he⟩

theorem after_eq_ok {operation : Ledger.Update π α} {inFlight : α → Finset Nat}
    (done : s.after operation inFlight = .ok s') :
    ∃ answer ledger, operation s.ledger = .ok answer ledger ∧ s' = ⟨ledger, inFlight answer⟩ := by
  unfold after at done
  split at done
  · cases done
    exact ⟨_, _, ‹_›, rfl⟩
  · cases done

theorem Sound.leave (h : s.Sound) (done : s.perform .leave = .ok s') :
    s'.Sound ∧ (s'.Counted ↔ s.Counted) := by
  obtain ⟨answer, ledger, hrun, rfl⟩ := after_eq_ok done
  obtain ⟨caught, hsub, hquiet⟩ := Ledger.endCatch_ok hrun
  constructor
  · refine h.proceed hquiet.length.ge (hquiet.caught ▸ hsub) ?_ fun e he => .inl he
    exact fun e _ he => hquiet.foreign e he
  · unfold Counted
    rw [hquiet.uncaught]

theorem Sound.throwAgain (h : s.Sound) (done : s.perform .throwAgain = .ok s') :
    s'.Sound ∧ (s'.Counted ↔ s.Counted) := by
  obtain ⟨answer, ledger, hrun, rfl⟩ := after_eq_ok done
  obtain ⟨e, hcurrent⟩ : ∃ e, s.ledger.current = some e := by
    cases hcurrent : s.ledger.current with
    | some e => exact ⟨e, rfl⟩
    | none =>
      simp only [Ledger.beginRethrow, Ledger.get_bind, hcurrent] at hrun
      cases hrun
  by_cases he : s.ledger.Foreign e
  · obtain ⟨rfl, rfl⟩ := Ledger.beginRethrow_foreign hcurrent he hrun
    have hmem : answer ∈ s.ledger.caught := List.mem_of_head? hcurrent
    obtain ⟨hnot, hcount⟩ := h.foreign answer hmem he
    have htail : answer ∉ s.ledger.caught.tail := by
      rw [← List.cons_head?_tail hcurrent, List.count_cons_self] at hcount
      exact List.count_eq_zero.mp (Nat.succ.inj hcount)
    refine ⟨h.proceed (Nat.le_refl _) (List.tail_sublist _) (fun _ _ hf => hf) ?_,
      counted_launch hnot rfl⟩
    intro e' he'
    rcases Finset.mem_insert.mp he' with rfl | hold
    · exact .inr ⟨h.caught e' hmem, htail⟩
    · exact .inl hold
  · obtain ⟨rfl, hcaught, huncaught, hlength, hforeign⟩ :=
      Ledger.beginRethrow_native hcurrent he hrun
    refine ⟨h.proceed (by omega) (hcaught ▸ .refl _) (fun e _ => hforeign e) ?_,
      counted_launch h.next_not_inFlight huncaught⟩
    intro e' he'
    rcases Finset.mem_insert.mp he' with rfl | hold
    · exact .inr ⟨by omega, hcaught ▸ h.next_not_caught⟩
    · exact .inl hold

theorem Sound.handle_foreign (h : s.Sound) (he : s.ledger.Foreign e)
    (done : s.perform (.handle e) = .ok s') :
    s'.Sound ∧ (s.Counted → (s'.Counted ↔ e ∉ s.inFlight)) := by
  obtain ⟨answer, ledger, hrun, rfl⟩ := after_eq_ok done
  obtain ⟨-, rfl⟩ := Ledger.beginCatch_foreign he hrun
  constructor
  · refine ⟨?_, ?_, ?_⟩
    · exact fun e' he' => h.inFlight e' (Finset.mem_of_mem_erase he')
    · intro e' he'
      rw [List.mem_singleton.mp he']
      exact he.lt_length
    · intro e' he' _
      rw [List.mem_singleton.mp he']
      exact ⟨Finset.notMem_erase e _, List.count_singleton_self⟩
  · intro hcounted
    unfold Counted at hcounted ⊢
    by_cases hmem : e ∈ s.inFlight
    · have hpos := Finset.card_pos.mpr ⟨e, hmem⟩
      rw [Finset.card_erase_of_mem hmem]
      simp only [hmem, not_true_eq_false, iff_false]
      omega
    · rw [Finset.erase_eq_of_notMem hmem]
      exact iff_of_true hcounted hmem

theorem Sound.handle_native (h : s.Sound) (he : ¬ s.ledger.Foreign e)
    (done : s.perform (.handle e) = .ok s') :
    s'.Sound ∧ (s.Counted → (s'.Counted ↔ ¬ (e ∉ s.inFlight ∧ s.inFlight.Nonempty))) := by
  obtain ⟨answer, ledger, hrun, rfl⟩ := after_eq_ok done
  obtain ⟨hlt, rfl⟩ := Ledger.beginCatch_native he hrun
  have hlength := List.length_modify
    (LedgerEntry.mapHeader fun header => { header with handlers := header.handlers + 1 })
    s.ledger.entries e
  have hcaught : ∀ e', e' ≠ e →
      e' ∈ (if s.ledger.current = some e then s.ledger.caught else e :: s.ledger.caught) →
      e' ∈ s.ledger.caught := by
    intro e' hne he'
    split at he'
    · exact he'
    · exact (List.mem_cons.mp he').resolve_left hne
  constructor
  · refine ⟨?_, ?_, ?_⟩
    · intro e' he'
      exact (h.inFlight e' (Finset.mem_of_mem_erase he')).trans_eq hlength.symm
    · intro e' he'
      refine Nat.lt_of_lt_of_eq ?_ hlength.symm
      by_cases heq : e' = e
      · exact heq ▸ hlt
      · exact h.caught e' (hcaught e' heq he')
    · intro e' he' hf
      have hf' := (Ledger.foreign_modify rfl e').mp hf
      have hne : e' ≠ e := by
        rintro rfl
        exact he hf'
      obtain ⟨hnot, hcount⟩ := h.foreign e' (hcaught e' hne he') hf'
      refine ⟨fun hmem => hnot (Finset.mem_of_mem_erase hmem), ?_⟩
      dsimp only
      split
      · exact hcount
      · rw [List.count_cons_of_ne (Ne.symm hne), hcount]
  · intro hcounted
    unfold Counted at hcounted ⊢
    by_cases hmem : e ∈ s.inFlight
    · rw [Finset.card_erase_of_mem hmem, hcounted]
      exact iff_of_true rfl fun hnot => hnot.1 hmem
    · rw [Finset.erase_eq_of_notMem hmem, hcounted, ← Finset.card_pos]
      simp only [hmem, not_false_eq_true, true_and]
      omega

/-- As long as the number is right, it stays right with all steps but these. -/
theorem Sound.perform (h : s.Sound) (action : TrafficAction π) (done : s.perform action = .ok s') :
    s'.Sound ∧ (s.Counted → (s'.Counted ↔ ¬ s.Miscounts action)) := by
  have kept (hkept : s'.Sound ∧ (s'.Counted ↔ s.Counted)) (hright : ¬ s.Miscounts action) :
      s'.Sound ∧ (s.Counted → (s'.Counted ↔ ¬ s.Miscounts action)) :=
    ⟨hkept.1, fun hcounted => iff_of_true (hkept.2.mpr hcounted) hright⟩
  cases action with
  | throwNew payload => exact kept (h.throwNew done) not_false
  | arrive kind wanted => exact kept (h.arrive done) not_false
  | leave => exact kept (h.leave done) not_false
  | throwAgain => exact kept (h.throwAgain done) not_false
  | handle e =>
    by_cases he : s.ledger.Foreign e
    · obtain ⟨hsound, hcounted⟩ := h.handle_foreign he done
      exact ⟨hsound, by simpa [Miscounts, he] using hcounted⟩
    · obtain ⟨hsound, hcounted⟩ := h.handle_native he done
      exact ⟨hsound, by simpa [Miscounts, he] using hcounted⟩

theorem Run.sound {steps : List (Traffic π × TrafficAction π)} (h : Run steps s) : s.Sound := by
  induction h with
  | start => exact .start
  | step action _ done ih => exact (ih.perform action done).1

/-- The number has been right in all states of a run exactly when no step was one
of those it goes wrong with. -/
theorem counted_iff {steps : List (Traffic π × TrafficAction π)} (h : Run steps s) :
    ((∀ step ∈ steps, step.1.Counted) ∧ s.Counted) ↔
      ∀ step ∈ steps, ¬ step.1.Miscounts step.2 := by
  induction h with
  | start => simp [Counted, start, Ledger.empty]
  | @step steps s s' action h done ih =>
    have hstep := (h.sound.perform action done).2
    simp only [List.forall_mem_append, List.forall_mem_singleton]
    constructor
    · rintro ⟨hbefore, hafter⟩
      exact ⟨ih.mp hbefore, (hstep hbefore.2).mp hafter⟩
    · rintro ⟨hsteps, haction⟩
      have hbefore := ih.mpr hsteps
      exact ⟨hbefore, (hstep hbefore.2).mpr haction⟩

/-- A payload is thrown, thrown again from its handler and handled outside, and
then an exception of another runtime comes and is handled. -/
theorem counted_iff_mixed :
    ∃ (steps : List (Traffic Nat × TrafficAction Nat)) (s : Traffic Nat), Run steps s ∧
      steps.map (·.2) = [.throwNew 7, .handle 0, .throwAgain, .leave, .handle 1, .leave,
        .arrive 0x474e5543432b2b00 true, .handle 2] ∧
      (((∀ step ∈ steps, step.1.Counted) ∧ s.Counted) ↔
        ∀ step ∈ steps, ¬ step.1.Miscounts step.2) := by
  have thrown : Run _ _ := .step (.throwNew 7) .start rfl
  have handled : Run _ _ := .step (.handle 0) thrown rfl
  have again : Run _ _ := .step .throwAgain handled rfl
  have left : Run _ _ := .step .leave again rfl
  have outside : Run _ _ := .step (.handle 1) left rfl
  have done : Run _ _ := .step .leave outside rfl
  have arrived : Run _ _ := .step (.arrive 0x474e5543432b2b00 true) done rfl
  have received : Run _ _ := .step (.handle 2) arrived rfl
  exact ⟨_, _, received, rfl, counted_iff received⟩

/-- The number stays at one when a foreign exception that was thrown again is
handled and nothing is on its way, and it is zero when one exception is on its
way while another gets a second handler. -/
theorem uncaught_wrong :
    (∃ (steps : List (Traffic Nat × TrafficAction Nat)) (s : Traffic Nat), Run steps s ∧
      steps.map (·.2) = [.arrive 0x474e5543432b2b00 true, .handle 0, .throwAgain, .handle 0] ∧
      s.ledger.uncaught = 1 ∧ s.inFlight = ∅ ∧ ¬ s.Counted) ∧
    ∃ (steps : List (Traffic Nat × TrafficAction Nat)) (s : Traffic Nat), Run steps s ∧
      steps.map (·.2) = [.throwNew 7, .handle 0, .throwNew 8, .handle 0] ∧
      s.ledger.uncaught = 0 ∧ s.inFlight = {1} ∧ ¬ s.Counted := by
  constructor
  · have arrived : Run _ _ :=
      .step (.arrive 0x474e5543432b2b00 true : TrafficAction Nat) .start rfl
    have handled : Run _ _ := .step (.handle 0) arrived rfl
    have again : Run _ _ := .step .throwAgain handled rfl
    have received : Run _ _ := .step (.handle 0) again rfl
    exact ⟨_, _, received, rfl, rfl, by decide, by unfold Counted; decide⟩
  · have first : Run _ _ := .step (.throwNew 7) .start rfl
    have handled : Run _ _ := .step (.handle 0) first rfl
    have second : Run _ _ := .step (.throwNew 8) handled rfl
    have nested : Run _ _ := .step (.handle 0) second rfl
    exact ⟨_, _, nested, rfl, rfl, by decide, by unfold Counted; decide⟩

end Steps

end Traffic

end Unwinding
