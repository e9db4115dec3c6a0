import Mathlib.Data.Finset.Basic
import Unwinding.Proofs.Exception.Operations

/-!
# References in balance

A native exception may be used as long as somebody has a handle on it: whoever
throws or handles it, and, for a primary exception, each of its dependents.
The ledger does not know the handles, it only counts. It is in balance when
every count is the number of handles there are, and then giving up a handle
never fails, and the payload goes with the last one.

A ledger is compared with the set of exceptions that are held by somebody and
with a list of what every number was made for. In the middle of a release one
reference is still to be given up; the exception it belongs to is owed.
-/

namespace Unwinding

/-- What an exception was made for. -/
inductive Origin (π : Type) where
  | thrown (payload : π)
  | rethrown (primary : Nat)
  deriving Repr, DecidableEq

namespace Ledger

variable {π : Type}

/-- How many have a handle on an exception: its holder, and its dependents. -/
def handles (ledger : Ledger π) (held : Finset Nat) (e : Nat) : Nat :=
  (if e ∈ held then 1 else 0) + ledger.dependents e

/-- The payload that is gone with the exception, if it was made for one. -/
def gone (ledger : Ledger π) (made : List (Origin π)) (e : Nat) : Option (LedgerEvent π) :=
  match made[e]?, ledger.entry e with
  | some (.thrown payload), .freed => some (.dropped payload)
  | _, _ => none

/-- All payloads that are gone, by the numbers of their exceptions. -/
def allGone (ledger : Ledger π) (made : List (Origin π)) : List (LedgerEvent π) :=
  (List.range made.length).filterMap (ledger.gone made)

theorem gone_eq_some {ledger : Ledger π} {made : List (Origin π)} {e : Nat}
    {event : LedgerEvent π} :
    ledger.gone made e = some event ↔
      ∃ payload, made[e]? = some (.thrown payload) ∧ ledger.entry e = .freed ∧
        event = .dropped payload := by
  unfold gone
  split
  · rename_i payload hmade hfreed
    simp [hmade, hfreed, eq_comm]
  · rename_i hne
    constructor
    · intro h
      cases h
    · rintro ⟨payload, hmade, hfreed, -⟩
      exact absurd hfreed (hne payload hmade)

theorem gone_eq_none {ledger : Ledger π} {made : List (Origin π)} {e : Nat}
    (h : ledger.entry e ≠ .freed) : ledger.gone made e = none :=
  Option.eq_none_iff_forall_ne_some.mpr fun _ hgone =>
    let ⟨_, _, hfreed, _⟩ := gone_eq_some.mp hgone
    h hfreed

theorem gone_congr {ledger ledger' : Ledger π} {made made' : List (Origin π)} {e : Nat}
    (hmade : made'[e]? = made[e]?) (h : ledger'.entry e = .freed ↔ ledger.entry e = .freed) :
    ledger'.gone made' e = ledger.gone made e := by
  ext event
  rw [gone_eq_some, gone_eq_some, hmade, h]

theorem allGone_congr {ledger ledger' : Ledger π} {made : List (Origin π)}
    (h : ∀ e, ledger'.entry e = .freed ↔ ledger.entry e = .freed) :
    ledger'.allGone made = ledger.allGone made :=
  List.filterMap_congr fun e _ => gone_congr rfl (h e)

theorem allGone_append {ledger ledger' : Ledger π} {new : LedgerEntry π} {made : List (Origin π)}
    {origin : Origin π} (h : ledger'.entries = ledger.entries ++ [new]) (hnew : new ≠ .freed)
    (hmade : made.length = ledger.entries.length) :
    ledger'.allGone (made ++ [origin]) = ledger.allGone made := by
  have hlast : ledger'.gone (made ++ [origin]) made.length = none := by
    refine gone_eq_none ?_
    rw [entry_append h, if_pos hmade]
    exact hnew
  rw [allGone, List.length_append, List.length_singleton, List.range_succ,
    List.filterMap_append, List.filterMap_cons_none hlast, List.filterMap_nil, List.append_nil]
  refine List.filterMap_congr fun e he => ?_
  have hlt := List.mem_range.mp he
  refine gone_congr (List.getElem?_append_left hlt) ?_
  rw [entry_append h, if_neg (by omega)]

theorem filterMap_range_perm {α : Type} {f f' : Nat → Option α} {n i : Nat} {x : α} (hi : i < n)
    (hne : ∀ j, j ≠ i → f' j = f j) (hf : f i = none) (hf' : f' i = some x) :
    ((List.range n).filterMap f').Perm ((List.range n).filterMap f ++ [x]) := by
  induction n with
  | zero => exact absurd hi (Nat.not_lt_zero i)
  | succ n ih =>
    rw [List.range_succ, List.filterMap_append, List.filterMap_append]
    by_cases heq : i = n
    · have hcongr : (List.range n).filterMap f' = (List.range n).filterMap f :=
        List.filterMap_congr fun j hj => hne j (by have := List.mem_range.mp hj; omega)
      subst heq
      simp [hcongr, hf, hf']
    · have htail : [n].filterMap f' = [n].filterMap f := by
        simp [List.filterMap_cons, hne n (Ne.symm heq)]
      rw [htail]
      refine ((ih (by omega)).append_right _).trans ?_
      rw [List.append_assoc, List.append_assoc]
      exact (List.perm_append_comm).append_left _

/-- The references of every exception are the handles on it, and the log shows
the payloads that are gone. One reference of the owed exception is still to be
given up. -/
structure Balanced (ledger : Ledger π) (made : List (Origin π)) (held : Finset Nat)
    (owed : Option Nat) : Prop where
  made_length : made.length = ledger.entries.length
  primary : ∀ e payload header, ledger.entry e = .primary payload header →
    made[e]? = some (.thrown payload) ∧ 0 < header.references ∧
      header.references = ledger.handles held e + if e ∈ owed then 1 else 0
  /-- Nothing depends on a dependent exception, and it is held as long as it is there. -/
  dependent : ∀ e primary header, ledger.entry e = .dependent primary header →
    made[e]? = some (.rethrown primary) ∧ header.references = 1 ∧ e ∈ held ∧
      ∃ payload header, ledger.entry primary = .primary payload header
  native : ∀ e kind wanted, ledger.entry e ≠ .foreign kind wanted
  live : ∀ e ∈ held, ledger.entry e ≠ .freed
  log : ledger.log.Perm (ledger.allGone made)

namespace Balanced

variable {ledger ledger' : Ledger π} {made : List (Origin π)} {held : Finset Nat} {owed : Option Nat}

theorem empty : (Ledger.empty : Ledger π).Balanced [] ∅ none where
  made_length := rfl
  primary _ _ _ h := nomatch h
  dependent _ _ _ h := nomatch h
  native _ _ _ h := nomatch h
  live _ h := nomatch h
  log := .refl _

theorem dependents_eq_zero (h : ledger.Balanced made held owed) {e : Nat}
    (he : ∀ payload header, ledger.entry e ≠ .primary payload header) : ledger.dependents e = 0 := by
  refine Nat.eq_zero_of_not_pos fun hpos => ?_
  obtain ⟨e', header, hd⟩ := dependents_pos.mp hpos
  obtain ⟨-, -, -, payload, header', hp⟩ := h.dependent _ _ _ hd
  exact he _ _ hp

/-- A thrown exception is gone as soon as nobody has a handle on it. -/
theorem freed_iff (h : ledger.Balanced made held none) {e : Nat} {payload : π}
    (hmade : made[e]? = some (.thrown payload)) :
    ledger.entry e = .freed ↔ ledger.handles held e = 0 := by
  constructor
  · intro hfreed
    have hheld : e ∉ held := fun hmem => h.live e hmem hfreed
    have hnone : ledger.dependents e = 0 :=
      h.dependents_eq_zero fun _ _ hp => by rw [hfreed] at hp; cases hp
    rw [handles, if_neg hheld, hnone]
  · intro hhandles
    cases he : ledger.entry e with
    | primary payload header =>
      obtain ⟨-, hpos, hcount⟩ := h.primary e payload header he
      simp only [hhandles, Option.not_mem_none, if_false] at hcount
      omega
    | dependent primary header =>
      obtain ⟨hmade', -⟩ := h.dependent e primary header he
      rw [hmade] at hmade'
      cases hmade'
    | foreign kind wanted => exact absurd he (h.native e kind wanted)
    | freed => rfl

theorem entry_eq_freed (h : ledger.Balanced made ∅ none) (e : Nat) : ledger.entry e = .freed := by
  have hdependent : ∀ e primary header, ledger.entry e ≠ .dependent primary header := by
    intro e primary header he
    obtain ⟨-, -, hheld, -⟩ := h.dependent e primary header he
    exact absurd hheld (Finset.notMem_empty e)
  cases he : ledger.entry e with
  | primary payload header =>
    obtain ⟨-, hpos, hcount⟩ := h.primary e payload header he
    have hdependents : 0 < ledger.dependents e := by
      simp only [handles, Finset.notMem_empty, Option.not_mem_none, if_false] at hcount
      omega
    obtain ⟨e', header', he'⟩ := dependents_pos.mp hdependents
    exact absurd he' (hdependent e' e header')
  | dependent primary header => exact absurd he (hdependent e primary header)
  | foreign kind wanted => exact absurd he (h.native e kind wanted)
  | freed => rfl

theorem next_unheld (h : ledger.Balanced made held owed) : ledger.entries.length ∉ held :=
  fun hmem => absurd (lt_length_of_entry (h.live _ hmem)) (Nat.lt_irrefl _)

theorem adjust (h : ledger.Balanced made held owed) {owed' : Option Nat} {e : Nat}
    {f : ExceptionHeader → ExceptionHeader}
    (hentries : ledger'.entries = ledger.entries.modify e (·.mapHeader f))
    (hlog : ledger'.log = ledger.log) (howed : ∀ e', e' ≠ e → (e' ∈ owed' ↔ e' ∈ owed))
    (hprimary : ∀ payload header, ledger.entry e = .primary payload header →
      0 < (f header).references ∧
        (f header).references + (if e ∈ owed then 1 else 0) =
          header.references + if e ∈ owed' then 1 else 0)
    (hdependent : ∀ primary header, ledger.entry e = .dependent primary header →
      (f header).references = header.references) :
    ledger'.Balanced made held owed' := by
  have hentry := entry_modify hentries
  have hhandles : ∀ e', ledger'.handles held e' = ledger.handles held e' := by
    intro e'
    rw [handles, handles, dependents_modify hentries]
  have hfreed : ∀ e', ledger'.entry e' = .freed ↔ ledger.entry e' = .freed := by
    intro e'
    rw [hentry]
    split
    · exact LedgerEntry.mapHeader_eq_freed
    · exact Iff.rfl
  refine ⟨?_, ?_, ?_, ?_, ?_, ?_⟩
  · rw [h.made_length, hentries, List.length_modify]
  · intro e' payload header he'
    rw [hentry] at he'
    rw [hhandles]
    split at he'
    · rename_i heq
      subst heq
      obtain ⟨header', hold, rfl⟩ := LedgerEntry.mapHeader_eq_primary.mp he'
      obtain ⟨hmade, -, hcount⟩ := h.primary e' payload header' hold
      obtain ⟨hpos, hf⟩ := hprimary payload header' hold
      exact ⟨hmade, hpos, by omega⟩
    · rename_i hne
      rw [if_congr (howed e' hne) rfl rfl]
      exact h.primary e' payload header he'
  · intro e' primary header he'
    have hstill : ∀ payload header, ledger.entry primary = .primary payload header →
        ∃ payload header, ledger'.entry primary = .primary payload header := by
      intro payload header hp
      rw [hentry]
      split
      · exact ⟨payload, f header, by rw [hp, LedgerEntry.mapHeader]⟩
      · exact ⟨payload, header, hp⟩
    rw [hentry] at he'
    split at he'
    · rename_i heq
      subst heq
      obtain ⟨header', hold, rfl⟩ := LedgerEntry.mapHeader_eq_dependent.mp he'
      obtain ⟨hmade, hone, hheld, payload, header, hp⟩ := h.dependent e' primary header' hold
      exact ⟨hmade, (hdependent primary header' hold).trans hone, hheld, hstill payload header hp⟩
    · obtain ⟨hmade, hone, hheld, payload, header, hp⟩ := h.dependent e' primary header he'
      exact ⟨hmade, hone, hheld, hstill payload header hp⟩
  · intro e' kind wanted he'
    rw [hentry] at he'
    split at he'
    · exact h.native e' kind wanted (LedgerEntry.mapHeader_eq_foreign.mp he')
    · exact h.native e' kind wanted he'
  · intro e' he' hgone
    exact h.live e' he' ((hfreed e').mp hgone)
  · rw [hlog, allGone_congr hfreed]
    exact h.log

theorem adjustHandlers (h : ledger.Balanced made held owed) {e : Nat}
    {f : ExceptionHeader → ExceptionHeader}
    (hentries : ledger'.entries = ledger.entries.modify e (·.mapHeader f))
    (hlog : ledger'.log = ledger.log) (hf : ∀ header, (f header).references = header.references) :
    ledger'.Balanced made held owed := by
  refine h.adjust hentries hlog (fun _ _ => Iff.rfl) ?_ ?_
  · intro payload header he
    obtain ⟨-, hpos, -⟩ := h.primary e payload header he
    rw [hf header]
    exact ⟨hpos, rfl⟩
  · intro primary header _
    exact hf header

/-- A new exception is held by whoever made it, and is the handle on its
primary that a reference was made for. -/
theorem append (h : ledger.Balanced made held owed) {new : LedgerEntry π} {origin : Origin π}
    (hentries : ledger'.entries = ledger.entries ++ [new]) (hlog : ledger'.log = ledger.log)
    (howed : ∀ e, e ∈ owed ↔ new.dependsOn e = true)
    (hprimary : ∀ payload header, new = .primary payload header →
      origin = .thrown payload ∧ header.references = 1)
    (hdependent : ∀ primary header, new = .dependent primary header →
      origin = .rethrown primary ∧ header.references = 1 ∧
        ∃ payload header, ledger.entry primary = .primary payload header)
    (hnative : ∀ kind wanted, new ≠ .foreign kind wanted) (hfreed : new ≠ .freed) :
    ledger'.Balanced (made ++ [origin]) (insert ledger.entries.length held) none := by
  have hentry := entry_append hentries
  have hnext : ledger.entry ledger.entries.length = .freed := by
    by_contra hne
    exact absurd (lt_length_of_entry hne) (Nat.lt_irrefl _)
  have hmade : ∀ e, ledger.entry e ≠ .freed → (made ++ [origin])[e]? = made[e]? := by
    intro e he
    exact List.getElem?_append_left (h.made_length ▸ lt_length_of_entry he)
  have hlast : (made ++ [origin])[ledger.entries.length]? = some origin := by
    rw [← h.made_length, List.getElem?_concat_length]
  have hstill : ∀ primary payload header, ledger.entry primary = .primary payload header →
      ledger'.entry primary = .primary payload header := by
    intro primary payload header hp
    rw [hentry, if_neg, hp]
    rintro rfl
    rw [hnext] at hp
    cases hp
  refine ⟨?_, ?_, ?_, ?_, ?_, ?_⟩
  · rw [List.length_append, hentries, List.length_append, h.made_length]
    rfl
  · intro e payload header he
    rw [handles, dependents_append hentries]
    rw [hentry] at he
    split at he
    · rename_i heq
      subst heq
      obtain ⟨rfl, hone⟩ := hprimary payload header he
      have hnone : ledger.dependents ledger.entries.length = 0 :=
        h.dependents_eq_zero fun _ _ hp => by rw [hnext] at hp; cases hp
      rw [he, hone, hnone]
      exact ⟨hlast, Nat.one_pos, by simp [LedgerEntry.dependsOn]⟩
    · rename_i hne
      obtain ⟨hm, hpos, hcount⟩ := h.primary e payload header he
      refine ⟨(hmade e (by rw [he]; simp)).trans hm, hpos, ?_⟩
      rw [hcount, handles]
      simp only [Finset.mem_insert, hne, false_or, howed e, Option.not_mem_none, if_false]
      omega
  · intro e primary header he
    rw [hentry] at he
    split at he
    · rename_i heq
      subst heq
      obtain ⟨rfl, hone, payload, header', hp⟩ := hdependent primary header he
      exact ⟨hlast, hone, Finset.mem_insert_self _ _, payload, header', hstill _ _ _ hp⟩
    · obtain ⟨hm, hone, hheld, payload, header', hp⟩ := h.dependent e primary header he
      exact ⟨(hmade e (by rw [he]; simp)).trans hm, hone, Finset.mem_insert_of_mem hheld,
        payload, header', hstill _ _ _ hp⟩
  · intro e kind wanted he
    rw [hentry] at he
    split at he
    · exact hnative kind wanted he
    · exact h.native e kind wanted he
  · intro e he hgone
    rw [hentry] at hgone
    split at hgone
    · exact hfreed hgone
    · rename_i hne
      exact h.live e (Finset.mem_of_mem_insert_of_ne he hne) hgone
  · rw [hlog, allGone_append hentries hfreed h.made_length]
    exact h.log

theorem appendPrimary (h : ledger.Balanced made held none) {payload : π} {header : ExceptionHeader}
    (hentries : ledger'.entries = ledger.entries ++ [.primary payload header])
    (hlog : ledger'.log = ledger.log) (hone : header.references = 1) :
    ledger'.Balanced (made ++ [.thrown payload]) (insert ledger.entries.length held) none := by
  refine h.append hentries hlog ?_ ?_ ?_ ?_ ?_
  · intro e
    simp [LedgerEntry.dependsOn]
  · intro payload' header' heq
    cases heq
    exact ⟨rfl, hone⟩
  all_goals simp

theorem appendDependent (h : ledger.Balanced made held none) {primary : Nat} {payload : π}
    {header header' : ExceptionHeader} (hp : ledger.entry primary = .primary payload header)
    (hentries : ledger'.entries = ledger.entries.modify primary
      (·.mapHeader ({ · with references := header.references + 1 })) ++
        [.dependent primary header'])
    (hlog : ledger'.log = ledger.log) (hone : header'.references = 1) :
    ledger'.Balanced (made ++ [.rethrown primary]) (insert ledger.entries.length held) none := by
  let middle : Ledger π :=
    { ledger with
      entries := ledger.entries.modify primary
        (·.mapHeader ({ · with references := header.references + 1 })) }
  have hmiddle : middle.Balanced made held (some primary) := by
    refine h.adjust rfl rfl ?_ ?_ ?_
    · intro e hne
      simp [Ne.symm hne]
    · intro payload' header'' he
      rw [hp] at he
      cases he
      simp
    · intro primary' header'' he
      rw [hp] at he
      cases he
  have hlength : middle.entries.length = ledger.entries.length := List.length_modify ..
  have hcounted : middle.entry primary =
      .primary payload { header with references := header.references + 1 } := by
    have hmodified : middle.entries = ledger.entries.modify primary
        (·.mapHeader ({ · with references := header.references + 1 })) := rfl
    rw [entry_modify hmodified, if_pos rfl, hp, LedgerEntry.mapHeader]
  rw [← hlength]
  refine hmiddle.append hentries hlog ?_ ?_ ?_ ?_ ?_
  · intro e
    simp [LedgerEntry.dependsOn]
  · simp
  · intro primary' header'' heq
    cases heq
    exact ⟨rfl, hone, payload, _, hcounted⟩
  all_goals simp

theorem letGo (h : ledger.Balanced made held none) {e : Nat} {payload : π}
    {header : ExceptionHeader} (he : ledger.entry e = .primary payload header) (hheld : e ∈ held) :
    ledger.Balanced made (held.erase e) (some e) := by
  refine ⟨h.made_length, ?_, ?_, h.native, fun e' he' => h.live e' (Finset.mem_of_mem_erase he'),
    h.log⟩
  · intro e' payload' header' he'
    obtain ⟨hm, hpos, hcount⟩ := h.primary e' payload' header' he'
    refine ⟨hm, hpos, ?_⟩
    rw [hcount, handles, handles]
    by_cases heq : e' = e
    · subst heq
      simp [hheld, Nat.add_comm]
    · simp [heq, Ne.symm heq]
  · intro e' primary header' he'
    obtain ⟨hm, hone, hheld', hp⟩ := h.dependent e' primary header' he'
    refine ⟨hm, hone, Finset.mem_erase.mpr ⟨?_, hheld'⟩, hp⟩
    rintro rfl
    rw [he] at he'
    cases he'

/-- An exception that nothing depends on is freed. Its place among the handles
of another one is made up for by what is owed. -/
theorem free (h : ledger.Balanced made held owed) {owed' : Option Nat} {e : Nat}
    (hlt : e < ledger.entries.length) (hentries : ledger'.entries = ledger.entries.set e .freed)
    (hunused : ledger.dependents e = 0)
    (hcount : ∀ e', e' ≠ e →
      ledger'.dependents e' + (if e' ∈ owed' then 1 else 0) =
        ledger.dependents e' + if e' ∈ owed then 1 else 0)
    (hlog : ledger'.log.Perm (ledger'.allGone made)) :
    ledger'.Balanced made (held.erase e) owed' := by
  have hentry := entry_set hentries hlt
  have hold : ∀ e', ledger'.entry e' ≠ .freed → e' ≠ e ∧ ledger'.entry e' = ledger.entry e' := by
    intro e' hne
    rw [hentry] at hne ⊢
    split at hne
    · exact absurd rfl hne
    · rename_i heq
      exact ⟨heq, if_neg heq⟩
  refine ⟨?_, ?_, ?_, ?_, ?_, hlog⟩
  · rw [h.made_length, hentries, List.length_set]
  · intro e' payload header he'
    obtain ⟨hne, hsame⟩ := hold e' (by rw [he']; simp)
    obtain ⟨hm, hpos, hreferences⟩ := h.primary e' payload header (hsame ▸ he')
    have hc := hcount e' hne
    refine ⟨hm, hpos, ?_⟩
    rw [hreferences, handles, handles]
    simp only [Finset.mem_erase, hne, ne_eq, not_false_eq_true, true_and]
    omega
  · intro e' primary header he'
    obtain ⟨hne, hsame⟩ := hold e' (by rw [he']; simp)
    obtain ⟨hm, hone, hheld, payload, header', hp⟩ := h.dependent e' primary header (hsame ▸ he')
    refine ⟨hm, hone, Finset.mem_erase.mpr ⟨hne, hheld⟩, payload, header', ?_⟩
    rw [hentry, if_neg, hp]
    rintro rfl
    exact absurd (dependents_pos.mpr ⟨e', header, hsame ▸ he'⟩) (Nat.not_lt.mpr hunused.le)
  · intro e' kind wanted he'
    obtain ⟨-, hsame⟩ := hold e' (by rw [he']; simp)
    exact h.native e' kind wanted (hsame ▸ he')
  · intro e' he' hgone
    obtain ⟨hne, hheld⟩ := Finset.mem_erase.mp he'
    rw [hentry, if_neg hne] at hgone
    exact h.live e' hheld hgone

/-- A dependent exception is freed with its only reference, and the handle it
had on its primary is owed. -/
theorem freeDependent (h : ledger.Balanced made held none) {e primary : Nat}
    {header : ExceptionHeader} (he : ledger.entry e = .dependent primary header)
    (hentries : ledger'.entries = ledger.entries.set e .freed) (hlog : ledger'.log = ledger.log) :
    ledger'.Balanced made (held.erase e) (some primary) := by
  have hlt : e < ledger.entries.length := lt_length_of_entry (by rw [he]; simp)
  refine h.free hlt hentries (h.dependents_eq_zero fun _ _ hp => by rw [he] at hp; cases hp) ?_ ?_
  · intro e' _
    have hset := dependents_set hentries hlt e'
    rw [he] at hset
    simpa [LedgerEntry.dependsOn] using hset
  · obtain ⟨hmade, -⟩ := h.dependent e primary header he
    have hsame : ledger'.allGone made = ledger.allGone made := by
      refine List.filterMap_congr fun e' _ => ?_
      by_cases heq : e' = e
      · rw [heq]
        simp only [gone, hmade]
      · refine gone_congr rfl ?_
        rw [entry_set hentries hlt, if_neg heq]
    rw [hlog, hsame]
    exact h.log

theorem freePrimary {e : Nat} (h : ledger.Balanced made held (some e)) {payload : π}
    {header : ExceptionHeader} (he : ledger.entry e = .primary payload header)
    (hone : header.references = 1)
    (hentries : ledger'.entries = ledger.entries.set e .freed)
    (hlog : ledger'.log = ledger.log ++ [.dropped payload]) :
    ledger'.Balanced made held none := by
  have hlt : e < ledger.entries.length := lt_length_of_entry (by rw [he]; simp)
  obtain ⟨hmade, -, hcount⟩ := h.primary e payload header he
  -- the reference that is owed is the last one, so there are no handles left
  have hhandles : ledger.handles held e = 0 := by
    rw [hone] at hcount
    simp only [Option.mem_some, if_true] at hcount
    omega
  have hheld : e ∉ held := by
    intro hmem
    simp [handles, hmem] at hhandles
  rw [← Finset.erase_eq_of_notMem hheld]
  refine h.free hlt hentries (Nat.eq_zero_of_add_eq_zero_left hhandles) ?_ ?_
  · intro e' hne
    have hset := dependents_set hentries hlt e'
    rw [he] at hset
    simpa [LedgerEntry.dependsOn, Ne.symm hne] using hset
  · have hperm : (ledger'.allGone made).Perm (ledger.allGone made ++ [.dropped payload]) := by
      refine filterMap_range_perm (h.made_length ▸ hlt) ?_ ?_ ?_
      · intro e' hne
        refine gone_congr rfl ?_
        rw [entry_set hentries hlt, if_neg hne]
      · exact gone_eq_none (by rw [he]; simp)
      · exact gone_eq_some.mpr ⟨payload, hmade, by rw [entry_set hentries hlt, if_pos rfl], rfl⟩
    rw [hlog]
    exact (h.log.append_right _).trans hperm.symm

end Balanced

theorem Balanced.exists_handlersOf {ledger : Ledger π} {made : List (Origin π)}
    {held : Finset Nat} {owed : Option Nat} (h : ledger.Balanced made held owed) {e : Nat}
    (he : e ∈ held) : ∃ handlers, ledger.handlersOf e = some handlers := by
  cases hentry : ledger.entry e with
  | primary payload header => exact ⟨header.handlers, by rw [handlersOf, hentry]; rfl⟩
  | dependent primary header => exact ⟨header.handlers, by rw [handlersOf, hentry]; rfl⟩
  | foreign kind wanted => exact absurd hentry (h.native e kind wanted)
  | freed => exact absurd hentry (h.live e he)

/-- What stays of the handling of exceptions while references are given up. -/
structure Keeps (ledger ledger' : Ledger π) : Prop where
  caught : ledger'.caught = ledger.caught
  handlers : ∀ e handlers, ledger'.handlersOf e = some handlers →
    ledger.handlersOf e = some handlers

theorem Keeps.trans {ledger ledger' ledger'' : Ledger π} (h : ledger.Keeps ledger')
    (h' : ledger'.Keeps ledger'') : ledger.Keeps ledger'' :=
  ⟨h'.caught.trans h.caught, fun e handlers he => h.handlers e handlers (h'.handlers e handlers he)⟩

theorem keeps_set {ledger ledger' : Ledger π} {e : Nat} (hlt : e < ledger.entries.length)
    (hentries : ledger'.entries = ledger.entries.set e .freed)
    (hcaught : ledger'.caught = ledger.caught) : ledger.Keeps ledger' := by
  refine ⟨hcaught, ?_⟩
  intro e' handlers he'
  rw [handlersOf, entry_set hentries hlt] at he'
  split at he'
  · cases he'
  · exact he'

theorem keeps_modify {ledger ledger' : Ledger π} {e : Nat} {f : ExceptionHeader → ExceptionHeader}
    (hentries : ledger'.entries = ledger.entries.modify e (·.mapHeader f))
    (hcaught : ledger'.caught = ledger.caught) (hf : ∀ header, (f header).handlers = header.handlers) :
    ledger.Keeps ledger' := by
  refine ⟨hcaught, ?_⟩
  intro e' handlers he'
  rw [handlersOf_modify (g := id) hentries hf, Option.map_id, id, ite_self] at he'
  exact he'

theorem releasePrimary_ok {ledger : Ledger π} {made : List (Origin π)} {held : Finset Nat} {e : Nat}
    (h : ledger.Balanced made held (some e)) {payload : π} {header : ExceptionHeader}
    (he : ledger.entry e = .primary payload header) :
    ∃ ledger', releasePrimary e ledger = .ok () ledger' ∧ ledger'.Balanced made held none ∧
      ledger.Keeps ledger' := by
  have hlt : e < ledger.entries.length := lt_length_of_entry (by rw [he]; simp)
  rw [releasePrimary_eq he, dropReference]
  obtain ⟨-, hpos, -⟩ := h.primary e payload header he
  match hr : header.references with
  | 0 => omega
  | 1 =>
    exact ⟨_, rfl, h.freePrimary he hr rfl rfl, keeps_set hlt rfl rfl⟩
  | references + 2 =>
    refine ⟨_, rfl, h.adjust rfl rfl ?_ ?_ ?_, keeps_modify rfl rfl fun _ => rfl⟩
    · intro e' hne
      simp [Ne.symm hne]
    · intro payload' header' he'
      rw [he] at he'
      cases he'
      simp
      omega
    · intro primary header' he'
      rw [he] at he'
      cases he'

theorem release_ok {ledger : Ledger π} {made : List (Origin π)} {held : Finset Nat} {e : Nat}
    (h : ledger.Balanced made held none) (hheld : e ∈ held) :
    ∃ ledger', release e ledger = .ok () ledger' ∧ ledger'.Balanced made (held.erase e) none ∧
      ledger.Keeps ledger' := by
  cases he : ledger.entry e with
  | primary payload header =>
    rw [release_primary_eq he]
    exact releasePrimary_ok (h.letGo he hheld) he
  | dependent primary header =>
    obtain ⟨-, hone, -, payload, header', hp⟩ := h.dependent e primary header he
    have hlt : e < ledger.entries.length := lt_length_of_entry (by rw [he]; simp)
    let middle : Ledger π := { ledger with entries := ledger.entries.set e .freed }
    have hrun : release e ledger = releasePrimary primary middle := by
      rw [release_dependent_eq he, dropReference, hone]
      rfl
    have hp' : middle.entry primary = .primary payload header' := by
      rw [entry_set rfl hlt, if_neg, hp]
      rintro rfl
      rw [he] at hp
      cases hp
    have hmiddle : middle.Balanced made (held.erase e) (some primary) := h.freeDependent he rfl rfl
    obtain ⟨ledger', hok, hbalanced, hkeeps⟩ := releasePrimary_ok hmiddle hp'
    have hfreed : ledger.Keeps middle := keeps_set hlt rfl rfl
    exact ⟨ledger', hrun.trans hok, hbalanced, hfreed.trans hkeeps⟩
  | foreign kind wanted => exact absurd he (h.native e kind wanted)
  | freed => exact absurd he (h.live e hheld)

end Ledger

end Unwinding
