import Mathlib.Data.List.Basic
import Unwinding.Exception.Ledger

/-!
# The entries of a ledger

Every operation on a ledger does one of three things to its entries: it adds
one, replaces one, or changes the header of one. Here it is said what the
entries are afterwards, and how many dependents and handlers an exception has.
The rest of a ledger does not matter for this, so the lemmas ask for no more
of the two ledgers than how their entries are related.
-/

namespace Unwinding

namespace LedgerEntry

variable {π : Type}

/-- The entry is a dependent exception of `primary`. -/
def dependsOn (primary : Nat) : LedgerEntry π → Bool
  | .dependent number _ => number == primary
  | _ => false

@[simp] theorem dependsOn_mapHeader (primary : Nat) (f : ExceptionHeader → ExceptionHeader)
    (entry : LedgerEntry π) : (entry.mapHeader f).dependsOn primary = entry.dependsOn primary := by
  cases entry <;> rfl

@[simp] theorem header_mapHeader (f : ExceptionHeader → ExceptionHeader) (entry : LedgerEntry π) :
    (entry.mapHeader f).header = entry.header.map f := by
  cases entry <;> rfl

theorem mapHeader_eq_primary {f : ExceptionHeader → ExceptionHeader} {entry : LedgerEntry π}
    {payload : π} {header : ExceptionHeader} :
    entry.mapHeader f = .primary payload header ↔
      ∃ header', entry = .primary payload header' ∧ f header' = header := by
  cases entry <;> simp [mapHeader]

theorem mapHeader_eq_dependent {f : ExceptionHeader → ExceptionHeader} {entry : LedgerEntry π}
    {primary : Nat} {header : ExceptionHeader} :
    entry.mapHeader f = .dependent primary header ↔
      ∃ header', entry = .dependent primary header' ∧ f header' = header := by
  cases entry <;> simp [mapHeader]

theorem mapHeader_eq_foreign {f : ExceptionHeader → ExceptionHeader} {entry : LedgerEntry π}
    {kind : Word} {wanted : Bool} :
    entry.mapHeader f = .foreign kind wanted ↔ entry = .foreign kind wanted := by
  cases entry <;> simp [mapHeader]

theorem mapHeader_eq_freed {f : ExceptionHeader → ExceptionHeader} {entry : LedgerEntry π} :
    entry.mapHeader f = .freed ↔ entry = .freed := by
  cases entry <;> simp [mapHeader]

end LedgerEntry

namespace Ledger

variable {π : Type}

section Entries

variable {ledger ledger' : Ledger π} {new : LedgerEntry π} {e : Nat}
  {f : ExceptionHeader → ExceptionHeader}

theorem lt_length_of_entry (h : ledger.entry e ≠ .freed) : e < ledger.entries.length := by
  by_contra hlt
  exact h (by simp [entry, List.getElem?_eq_none (Nat.not_lt.mp hlt)])

theorem entry_eq_getElem (h : e < ledger.entries.length) : ledger.entry e = ledger.entries[e] := by
  simp [entry, h]

theorem entry_append (h : ledger'.entries = ledger.entries ++ [new]) (e : Nat) :
    ledger'.entry e = if e = ledger.entries.length then new else ledger.entry e := by
  rw [entry, h]
  split
  · rename_i he
    rw [he, List.getElem?_concat_length, Option.getD_some]
  · rename_i he
    by_cases hlt : e < ledger.entries.length
    · rw [List.getElem?_append_left hlt, entry]
    · rw [List.getElem?_eq_none (by simp; omega), entry, List.getElem?_eq_none (by omega)]

theorem entry_set (h : ledger'.entries = ledger.entries.set e new)
    (he : e < ledger.entries.length) (e' : Nat) :
    ledger'.entry e' = if e' = e then new else ledger.entry e' := by
  rw [entry, h]
  split
  · rename_i heq
    rw [heq, List.getElem?_set_self he, Option.getD_some]
  · rename_i hne
    rw [List.getElem?_set_ne (Ne.symm hne), entry]

theorem entry_modify (h : ledger'.entries = ledger.entries.modify e (·.mapHeader f)) (e' : Nat) :
    ledger'.entry e' = if e' = e then (ledger.entry e').mapHeader f else ledger.entry e' := by
  rw [entry, h]
  split
  · rename_i heq
    rw [heq, List.getElem?_modify_eq, entry]
    cases ledger.entries[e]? <;> rfl
  · rename_i hne
    rw [List.getElem?_modify_ne _ _ (Ne.symm hne), entry]

/-- How many dependents an exception has. -/
def dependents (ledger : Ledger π) (e : Nat) : Nat := ledger.entries.countP (·.dependsOn e)

theorem dependents_append (h : ledger'.entries = ledger.entries ++ [new]) (e : Nat) :
    ledger'.dependents e = ledger.dependents e + if new.dependsOn e then 1 else 0 := by
  rw [dependents, h, List.countP_append, List.countP_singleton, dependents]

theorem dependents_set (h : ledger'.entries = ledger.entries.set e new)
    (he : e < ledger.entries.length) (e' : Nat) :
    ledger'.dependents e' + (if (ledger.entry e).dependsOn e' then 1 else 0) =
      ledger.dependents e' + if new.dependsOn e' then 1 else 0 := by
  have hle := List.boole_getElem_le_countP (p := (·.dependsOn e')) he
  rw [dependents, h, List.countP_set he, entry_eq_getElem he, dependents]
  omega

theorem dependents_modify (h : ledger'.entries = ledger.entries.modify e (·.mapHeader f))
    (e' : Nat) : ledger'.dependents e' = ledger.dependents e' := by
  by_cases he : e < ledger.entries.length
  · have hset : ledger'.entries = ledger.entries.set e ((ledger.entry e).mapHeader f) := by
      rw [h, @List.modify_eq_set _ ⟨.freed⟩]
      rfl
    have hcount := dependents_set hset he e'
    rw [LedgerEntry.dependsOn_mapHeader] at hcount
    omega
  · rw [dependents, h, List.modify_eq_self (Nat.not_lt.mp he), dependents]

theorem dependents_pos :
    0 < ledger.dependents e ↔ ∃ e' header, ledger.entry e' = .dependent e header := by
  rw [dependents, List.countP_pos_iff]
  constructor
  · rintro ⟨entry, hmem, hentry⟩
    obtain ⟨e', he', rfl⟩ := List.mem_iff_getElem.mp hmem
    cases hd : ledger.entries[e'] with
    | dependent number header =>
      rw [hd] at hentry
      have heq : number = e := by simpa [LedgerEntry.dependsOn] using hentry
      exact ⟨e', header, by rw [entry_eq_getElem he', hd, heq]⟩
    | _ =>
      rw [hd] at hentry
      cases hentry
  · rintro ⟨e', header, hd⟩
    have hlive : ledger.entry e' ≠ .freed := by
      rw [hd]
      simp
    have he' := lt_length_of_entry hlive
    refine ⟨_, List.getElem_mem he', ?_⟩
    rw [← entry_eq_getElem he', hd]
    simp [LedgerEntry.dependsOn]

/-- How many handlers are running for a native exception. -/
def handlersOf (ledger : Ledger π) (e : Nat) : Option Nat :=
  (ledger.entry e).header.map (·.handlers)

theorem native_of_handlersOf {handlers : Nat} (h : ledger.handlersOf e = some handlers) :
    ∃ header, header.handlers = handlers ∧
      ((∃ payload, ledger.entry e = .primary payload header) ∨
        ∃ primary, ledger.entry e = .dependent primary header) := by
  obtain ⟨header, hheader, hcount⟩ := Option.map_eq_some_iff.mp h
  refine ⟨header, hcount, ?_⟩
  cases he : ledger.entry e with
  | primary payload header' =>
    rw [he] at hheader
    cases hheader
    exact .inl ⟨payload, rfl⟩
  | dependent primary header' =>
    rw [he] at hheader
    cases hheader
    exact .inr ⟨primary, rfl⟩
  | _ =>
    rw [he] at hheader
    cases hheader

theorem handlersOf_append (h : ledger'.entries = ledger.entries ++ [new])
    (he : e < ledger.entries.length) : ledger'.handlersOf e = ledger.handlersOf e := by
  rw [handlersOf, entry_append h, if_neg (Nat.ne_of_lt he), handlersOf]

theorem handlersOf_modify {g : Nat → Nat}
    (hentries : ledger'.entries = ledger.entries.modify e (·.mapHeader f))
    (hf : ∀ header, (f header).handlers = g header.handlers) (e' : Nat) :
    ledger'.handlersOf e' =
      if e' = e then (ledger.handlersOf e').map g else ledger.handlersOf e' := by
  rw [handlersOf, entry_modify hentries, handlersOf]
  split
  · rw [LedgerEntry.header_mapHeader, Option.map_map, Option.map_map]
    exact Option.map_congr fun header _ => hf header
  · rfl

end Entries

end Ledger

end Unwinding
