import Unwinding.Proofs.Exception.Handling

/-!
# Handlers entered and left

The ledger does not remember the calls that were made. What it keeps of them is a number
for each exception, and the order of the exceptions being handled. Here both are compared
with the calls of the whole run: the number is how many handlers were entered for the
exception and not left again, and the exceptions being handled are those that have such a
handler.
-/

namespace Unwinding

variable {π : Type} {e : Nat}

namespace Ledger

/-- How many handlers are running for an exception, none if it is gone. -/
def running (ledger : Ledger π) (e : Nat) : Nat := (ledger.handlersOf e).getD 0

/-- The exceptions being handled are those that have a handler. -/
def Marked (ledger : Ledger π) : Prop := ∀ e, e ∈ ledger.caught ↔ 0 < ledger.running e

variable {ledger ledger' : Ledger π} {new : LedgerEntry π} {f : ExceptionHeader → ExceptionHeader}
  {handlers : Nat}

theorem running_of_handlersOf (h : ledger.handlersOf e = some handlers) :
    ledger.running e = handlers := by
  rw [running, h, Option.getD_some]

theorem running_modify {g : Nat → Nat} (h : ledger.handlersOf e = some handlers)
    (hentries : ledger'.entries = ledger.entries.modify e (·.mapHeader f))
    (hf : ∀ header, (f header).handlers = g header.handlers) (e' : Nat) :
    ledger'.running e' = if e' = e then g handlers else ledger.running e' := by
  rw [running, handlersOf_modify hentries hf]
  by_cases heq : e' = e
  · rw [if_pos heq, if_pos heq, heq, h, Option.map_some, Option.getD_some]
  · rw [if_neg heq, if_neg heq, running]

theorem running_modify_of_same
    (hentries : ledger'.entries = ledger.entries.modify e (·.mapHeader f))
    (hf : ∀ header, (f header).handlers = header.handlers) (e' : Nat) :
    ledger'.running e' = ledger.running e' := by
  rw [running, handlersOf_modify (g := id) hentries hf, Option.map_id, id, ite_self, running]

theorem running_append (hentries : ledger'.entries = ledger.entries ++ [new])
    (hnew : (new.header.map (·.handlers)).getD 0 = 0) (e : Nat) :
    ledger'.running e = ledger.running e := by
  rw [running, handlersOf, entry_append hentries]
  by_cases heq : e = ledger.entries.length
  · have hnone : ledger.entry e = .freed := by
      by_contra hlive
      exact absurd (lt_length_of_entry hlive) (heq ▸ Nat.lt_irrefl _)
    rw [if_pos heq, hnew, running, handlersOf, hnone]
    rfl
  · rw [if_neg heq, running, handlersOf]

/-- Where references are given up, no handler is lost: what is freed had none. -/
theorem Keeps.running (h : ledger.Keeps ledger') (hmarked : ledger.Marked)
    (hlive : ∀ e ∈ ledger'.caught, ∃ handlers, ledger'.handlersOf e = some handlers) (e : Nat) :
    ledger'.running e = ledger.running e := by
  cases hhandlers : ledger'.handlersOf e with
  | some handlers =>
    rw [running_of_handlersOf hhandlers, running_of_handlersOf (h.handlers e handlers hhandlers)]
  | none =>
    have hfree : e ∉ ledger.caught := by
      rw [← h.caught]
      intro he
      obtain ⟨handlers, hsome⟩ := hlive e he
      cases hhandlers.symm.trans hsome
    have hzero : ledger.running e = 0 := Nat.eq_zero_of_not_pos (mt (hmarked e).mpr hfree)
    rw [hzero, Ledger.running, hhandlers]
    rfl

theorem Marked.congr (h : ledger.Marked) (hcaught : ledger'.caught = ledger.caught)
    (hrunning : ∀ e, ledger'.running e = ledger.running e) : ledger'.Marked := by
  intro e
  rw [hcaught, hrunning]
  exact h e

end Ledger

namespace Handling

variable {s s' : Handling π} {action : HandlingAction π}

def enters (e : Nat) : HandlingAction π → Bool
  | .handle e' => e' == e
  | _ => false

/-- It is the innermost handler that is left. -/
def leaves (s : Handling π) (e : Nat) : HandlingAction π → Bool
  | .leave => s.ledger.current == some e
  | _ => false

/-- The action enters and leaves handlers as it is called, and no others. -/
structure Counts (s : Handling π) (action : HandlingAction π) (s' : Handling π) : Prop where
  running : ∀ e, s'.ledger.running e + (if s.leaves e action then 1 else 0) =
    s.ledger.running e + if enters e action then 1 else 0
  marked : s'.ledger.Marked

theorem Sound.live (h : s.Sound) (he : e ∈ s.ledger.caught) :
    ∃ handlers, s.ledger.handlersOf e = some handlers :=
  h.balanced.exists_handlersOf (mem_held.mpr (.inl he))

theorem Counts.of_same (hmarked : s.ledger.Marked) (henters : ∀ e, enters e action = false)
    (hleaves : ∀ e, s.leaves e action = false) (hcaught : s'.ledger.caught = s.ledger.caught)
    (hrunning : ∀ e, s'.ledger.running e = s.ledger.running e) : Counts s action s' where
  running e := by rw [henters, hleaves, hrunning]
  marked := hmarked.congr hcaught hrunning

theorem Sound.counts_handle (h : s.Sound) (hmarked : s.ledger.Marked)
    (hallowed : s.Allowed (.handle e)) (done : s.perform (.handle e) = .ok s') :
    Counts s (.handle e) s' := by
  have hheld : e ∈ s.held := mem_held.mpr (hallowed.symm.imp_left List.mem_of_head?)
  obtain ⟨handlers, hhandlers⟩ := h.balanced.exists_handlersOf hheld
  obtain ⟨ledger, hrun, hentries, hcaught⟩ : ∃ ledger,
      Ledger.beginCatch e s.ledger = .ok (s.ledger.payload e) ledger ∧
      ledger.entries = s.ledger.entries.modify e
        (·.mapHeader fun header => { header with handlers := header.handlers + 1 }) ∧
      ledger.caught = if s.ledger.current = some e then s.ledger.caught else e :: s.ledger.caught :=
    ⟨_, Ledger.beginCatch_eq hhandlers, rfl, rfl⟩
  rw [Handling.perform, after, hrun] at done
  cases done
  have hrunning := Ledger.running_modify (g := (· + 1)) hhandlers hentries fun _ => rfl
  have hbefore := Ledger.running_of_handlersOf hhandlers
  have hmem : ∀ e', e' ∈ ledger.caught ↔ e' = e ∨ e' ∈ s.ledger.caught := by
    intro e'
    rw [hcaught]
    split
    · rename_i hcurrent
      exact ⟨.inr, fun h => h.elim (fun heq => heq ▸ List.mem_of_head? hcurrent) id⟩
    · exact List.mem_cons
  constructor
  · intro e'
    rw [hrunning]
    by_cases heq : e' = e
    · simp [heq, hbefore, leaves, enters]
    · simp [heq, Ne.symm heq, leaves, enters]
  · intro e'
    rw [hmem, hmarked, hrunning]
    by_cases heq : e' = e <;> simp [heq]

theorem Sound.counts_leave (h : s.Sound) (hmarked : s.ledger.Marked)
    (done : s.perform .leave = .ok s') (hsound : s'.Sound) : Counts s .leave s' := by
  cases hcurrent : s.ledger.current with
  | none =>
    rw [Handling.perform, after, Ledger.endCatch_none hcurrent] at done
    cases done
    exact .of_same hmarked (fun _ => rfl) (fun _ => by simp [leaves, hcurrent]) rfl fun _ => rfl
  | some e =>
    obtain ⟨rest, hcons⟩ := List.head?_eq_some_iff.mp hcurrent
    obtain ⟨handlers, hhandlers⟩ := h.handled e (hcons ▸ List.mem_cons_self)
    have hbefore := Ledger.running_of_handlersOf hhandlers
    have hnodup := h.nodup.of_append_left
    rw [hcons, List.nodup_cons] at hnodup
    let middle (caught : List Nat) : Ledger π :=
      { s.ledger with
        entries := s.ledger.entries.modify e (·.mapHeader ({ · with handlers }))
        caught }
    have hmiddle : ∀ caught e', (middle caught).running e' =
        if e' = e then handlers else s.ledger.running e' := fun _ =>
      Ledger.running_modify (g := fun _ => handlers) hhandlers rfl fun _ => rfl
    have hcount : ∀ e', (if e' = e then handlers else s.ledger.running e') +
        (if s.leaves e' .leave then 1 else 0) =
          s.ledger.running e' + if enters e' (.leave : HandlingAction π) then 1 else 0 := by
      intro e'
      by_cases heq : e' = e
      · simp [heq, hbefore, leaves, enters, hcurrent]
      · simp [heq, Ne.symm heq, leaves, enters, hcurrent]
    have hrun := Ledger.endCatch_some hcurrent hhandlers
    by_cases hzero : handlers = 0
    · rw [if_pos hzero, hcons, List.tail_cons] at hrun
      have hbalanced : (middle rest).Balanced s.made s.held none :=
        h.balanced.adjustHandlers rfl rfl fun _ => rfl
      obtain ⟨ledger, hok, -, hkeeps⟩ :=
        Ledger.release_ok hbalanced (mem_held.mpr (.inl (hcons ▸ List.mem_cons_self)))
      have hmarked' : (middle rest).Marked := by
        intro e'
        rw [hmiddle]
        change e' ∈ rest ↔ _
        by_cases heq : e' = e
        · simp [heq, hzero, hnodup.1]
        · simpa [heq, hcons] using hmarked e'
      rw [Handling.perform, after, hrun, hok] at done
      cases done
      have hsame := hkeeps.running hmarked' fun _ => hsound.live
      refine ⟨fun e' => ?_, hmarked'.congr hkeeps.caught hsame⟩
      rw [hsame, hmiddle]
      exact hcount e'
    · rw [if_neg hzero] at hrun
      rw [Handling.perform, after, hrun] at done
      cases done
      constructor
      · intro e'
        change (middle s.ledger.caught).running e' + _ = _
        rw [hmiddle]
        exact hcount e'
      · intro e'
        change e' ∈ s.ledger.caught ↔ 0 < (middle s.ledger.caught).running e'
        rw [hmiddle]
        by_cases heq : e' = e
        · simp [heq, hcons, Nat.pos_of_ne_zero hzero]
        · simpa [heq] using hmarked e'

theorem Sound.counts_discard (h : s.Sound) (hmarked : s.ledger.Marked)
    (hallowed : s.Allowed (.discard e)) (done : s.perform (.discard e) = .ok s')
    (hsound : s'.Sound) : Counts s (.discard e) s' := by
  obtain ⟨ledger, hok, -, hkeeps⟩ := Ledger.release_ok h.balanced (mem_held.mpr (.inr hallowed))
  rw [Handling.perform, after, Ledger.delete_eq (h.balanced.native e), hok] at done
  cases done
  exact .of_same hmarked (fun _ => rfl) (fun _ => rfl) hkeeps.caught
    (hkeeps.running hmarked fun _ => hsound.live)

theorem Sound.counts_throwAgain (h : s.Sound) (hmarked : s.ledger.Marked)
    (hcaught : s.ledger.caught ≠ []) (done : s.perform .throwAgain = .ok s') :
    Counts s .throwAgain s' := by
  obtain ⟨e, rest, hcons⟩ := List.exists_cons_of_ne_nil hcaught
  have hcurrent : s.ledger.current = some e := by rw [Ledger.current, hcons]; rfl
  obtain ⟨payload, header, hp⟩ :=
    h.primaryOf (mem_held.mpr (.inl (hcons ▸ List.mem_cons_self)))
  rw [Handling.perform, after, Ledger.beginRethrow_eq hcurrent (h.balanced.native e) hp] at done
  cases done
  let counted : Ledger π := { s.ledger with
    entries := s.ledger.entries.modify (s.ledger.primaryOf e)
      (·.mapHeader ({ · with references := header.references + 1 })) }
  have hcounted := Ledger.running_modify_of_same (show counted.entries = _ from rfl) fun _ => rfl
  exact .of_same hmarked (fun _ => rfl) (fun _ => rfl) rfl fun e' =>
    (Ledger.running_append (show _ = counted.entries ++ _ from rfl) rfl e').trans (hcounted e')

theorem Sound.counts (h : s.Sound) (hmarked : s.ledger.Marked) (hallowed : s.Allowed action)
    (done : s.perform action = .ok s') : Counts s action s' := by
  obtain ⟨_, hdone, hsound⟩ := h.perform action hallowed
  cases done.symm.trans hdone
  cases action with
  | throwNew payload =>
    cases done
    exact .of_same hmarked (fun _ => rfl) (fun _ => rfl) rfl (Ledger.running_append rfl rfl)
  | handle e => exact h.counts_handle hmarked hallowed done
  | leave => exact h.counts_leave hmarked done hsound
  | throwAgain => exact h.counts_throwAgain hmarked hallowed done
  | discard e => exact h.counts_discard hmarked hallowed done hsound

/-- The state is reached by these calls, each of them made in the state beside it. -/
inductive ReachedBy : List (Handling π × HandlingAction π) → Handling π → Prop where
  | start : ReachedBy [] start
  | step {calls : List (Handling π × HandlingAction π)} {s s' : Handling π}
    (action : HandlingAction π) (h : ReachedBy calls s) (allowed : s.Allowed action)
    (done : s.perform action = .ok s') : ReachedBy (calls ++ [(s, action)]) s'

variable {calls : List (Handling π × HandlingAction π)}

theorem ReachedBy.reachable (h : ReachedBy calls s) : s.Reachable := by
  induction h with
  | start => exact .start
  | step action _ allowed done ih => exact .step action ih allowed done

theorem Reachable.reachedBy (h : s.Reachable) : ∃ calls, ReachedBy calls s := by
  induction h with
  | start => exact ⟨[], .start⟩
  | step action _ allowed done ih =>
    obtain ⟨calls, h⟩ := ih
    exact ⟨_, .step action h allowed done⟩

def entered (e : Nat) (calls : List (Handling π × HandlingAction π)) : Nat :=
  calls.countP fun call => enters e call.2

def left (e : Nat) (calls : List (Handling π × HandlingAction π)) : Nat :=
  calls.countP fun call => call.1.leaves e call.2

/-- The ledger's numbers are those of the calls, and what is being handled is what has
been entered and not left. -/
theorem ReachedBy.counted (h : ReachedBy calls s) :
    (∀ e, s.ledger.running e + left e calls = entered e calls) ∧
      ∀ e, e ∈ s.ledger.caught ↔ left e calls < entered e calls := by
  have hinvariant : (∀ e, s.ledger.running e + left e calls = entered e calls) ∧
      s.ledger.Marked := by
    induction h with
    | start => exact ⟨fun _ => rfl, fun _ => ⟨nofun, fun h => absurd h (Nat.lt_irrefl 0)⟩⟩
    | step action reached allowed done ih =>
      have hcounts := reached.reachable.sound.counts ih.2 allowed done
      refine ⟨fun e => ?_, hcounts.marked⟩
      have hbefore := ih.1 e
      have hstep := hcounts.running e
      simp only [left, entered, List.countP_append, List.countP_singleton] at hbefore ⊢
      omega
  refine ⟨hinvariant.1, fun e => ?_⟩
  have hcount := hinvariant.1 e
  rw [hinvariant.2 e]
  omega

/-- Every state of a program that keeps to the rules is one of some calls, and counts them. -/
theorem Reachable.counted (h : s.Reachable) : ∃ calls, ReachedBy calls s ∧
    (∀ e, s.ledger.running e + left e calls = entered e calls) ∧
      ∀ e, e ∈ s.ledger.caught ↔ left e calls < entered e calls := by
  obtain ⟨calls, hcalls⟩ := h.reachedBy
  exact ⟨calls, hcalls, hcalls.counted⟩

end Handling

end Unwinding
