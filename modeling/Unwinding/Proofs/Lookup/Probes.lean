import Mathlib.Algebra.Group.Nat.Defs
import Mathlib.Order.Bounds.Basic
import Unwinding.Proofs.Lookup.Agreement
import Unwinding.Proofs.Outcome

/-!
# Searches over rows in any order

A search by key asks for few of the rows. The others have no part in what it comes to,
not even by failing, so it is enough to follow the rows that are asked for. Where a search
ends, the keys step over the target. In rows without order there can be many such steps,
and any of them may be found; if the keys ascend there is only one, and the row in front
of it is the last one that is not beyond the target.
-/

namespace Unwinding

namespace Search

variable {ε κ : Type}

/-! ## The rows that are asked for -/

section Asked

variable {σ α β ρ : Type}

/-- No more than `n` rows, all of them before `bound`, decide what the search over the rows
of `source` comes to. -/
def Asks (row : σ → Nat → Except ε ρ) (bound n : Nat) (source : σ) (search : σ → Except ε α) :
    Prop :=
  ∃ asked : List Nat, asked.length ≤ n ∧ (∀ i ∈ asked, i < bound) ∧
    ∀ other, (∀ i ∈ asked, row other i = row source i) → search other = search source

variable {row : σ → Nat → Except ε ρ} {bound n m : Nat} {source : σ} {search : σ → Except ε α}

theorem Asks.const (result : Except ε α) : Asks row bound n source fun _ => result :=
  ⟨[], Nat.zero_le n, nofun, fun _ _ => rfl⟩

theorem Asks.bind {next : α → σ → Except ε β} (h : Asks row bound n source search)
    (hnext : ∀ a, search source = .ok a → Asks row bound m source (next a)) :
    Asks row bound (n + m) source fun source => search source >>= (next · source) := by
  obtain ⟨asked, hlength, hbound, hsame⟩ := h
  cases hsearch : search source with
  | error error =>
    refine ⟨asked, Nat.le_trans hlength (Nat.le_add_right n m), hbound, fun other hother => ?_⟩
    dsimp only
    rw [hsame other hother, hsearch]
    rfl
  | ok a =>
    obtain ⟨asked', hlength', hbound', hsame'⟩ := hnext a hsearch
    refine ⟨asked ++ asked', ?_, ?_, fun other hother => ?_⟩
    · rw [List.length_append]
      omega
    · intro i hi
      rcases List.mem_append.mp hi with hi | hi
      · exact hbound i hi
      · exact hbound' i hi
    · have hfirst := hsame other fun i hi => hother i (List.mem_append_left asked' hi)
      have hrest := hsame' other fun i hi => hother i (List.mem_append_right asked hi)
      dsimp only
      rw [hfirst, hsearch]
      exact hrest

theorem Asks.round {next : ρ → σ → Except ε β} {i : Nat} (hi : i < bound)
    (hnext : ∀ a, Asks row bound n source (next a)) :
    Asks row bound (n + 1) source fun source => row source i >>= (next · source) := by
  have hrow : Asks row bound 1 source (row · i) :=
    ⟨[i], Nat.le_refl 1, by simpa using hi, fun _ hsame => hsame i List.mem_cons_self⟩
  rw [Nat.add_comm]
  exact hrow.bind fun a _ => hnext a

theorem Asks.ite {condition : Prop} [Decidable condition] {search' : σ → Except ε α}
    (h : condition → Asks row bound n source search)
    (h' : ¬ condition → Asks row bound n source search') :
    Asks row bound n source fun source =>
      if condition then search source else search' source := by
  by_cases hcondition : condition
  · simp only [if_pos hcondition]
    exact h hcondition
  · simp only [if_neg hcondition]
    exact h' hcondition

theorem Asks.of_keys (key : σ → Nat → Except ε κ) (search : (Nat → Except ε κ) → Except ε α)
    (h : Asks (fun keys => keys) bound n (key source) search)
    (hkey : ∀ other i, row other i = row source i → key other i = key source i) :
    Asks row bound n source fun source => search (key source) := by
  obtain ⟨asked, hlength, hbound, hsame⟩ := h
  exact ⟨asked, hlength, hbound, fun other hother =>
    hsame (key other) fun i hi => hkey other i (hother i hi)⟩

end Asked

section Halving

variable [LE κ] [DecidableLE κ] (key : Nat → Except ε κ) (target : κ)

/-- Every round asks for one entry and halves the range. -/
theorem asks_narrow {n : Nat} (base : Nat) {length bound : Nat} (hlength : length ≤ 2 ^ n)
    (hbound : base + length ≤ bound) :
    Asks (fun keys => keys) bound n key (narrow · target base length) := by
  induction n generalizing base length with
  | zero =>
    simp only [narrow_done _ target base (Nat.not_lt.mpr hlength)]
    exact .const _
  | succ n ih =>
    rw [Nat.pow_succ] at hlength
    by_cases hone : 1 < length
    · simp only [narrow_round _ target base hone]
      refine .round (by omega) fun k => .ite (fun _ => ?_) fun _ => ?_
      · exact ih (base + length / 2) (by omega) (by omega)
      · exact ih base (by omega) (by omega)
    · simp only [narrow_done _ target base hone]
      exact .const _

theorem asks_countBetween {n : Nat} {low high bound : Nat} (hwidth : high - low < 2 ^ n)
    (hbound : high ≤ bound) :
    Asks (fun keys => keys) bound n key (countBetween · target low high) := by
  induction n generalizing low high with
  | zero =>
    rw [Nat.pow_zero] at hwidth
    have hlow : ¬ low < high := by omega
    simp only [countBetween_done _ target hlow]
    exact .const _
  | succ n ih =>
    rw [Nat.pow_succ] at hwidth
    by_cases hlow : low < high
    · simp only [countBetween_round _ target hlow]
      refine .round (by omega) fun k => .ite (fun _ => ?_) fun _ => ?_
      · exact ih (by omega) hbound
      · exact ih (by omega) (by omega)
    · simp only [countBetween_done _ target hlow]
      exact .const _

variable {key target}

theorem narrow_lt {base length index : Nat} (h : narrow key target base length = .ok index)
    (hlength : 0 < length) : index < base + length := by
  induction length using Nat.strongRecOn generalizing base with
  | ind length ih =>
    by_cases hone : 1 < length
    · rw [narrow_round key target base hone] at h
      obtain ⟨k, -, h⟩ := Outcome.bind_eq_ok.mp h
      split at h
      · have hlt := ih (length - length / 2) (by omega) h (by omega)
        omega
      · have hlt := ih (length / 2) (by omega) h (by omega)
        omega
    · rw [narrow_done key target base hone] at h
      cases h
      omega

end Halving

/-! ## Where the search ends -/

section Places

variable [LE κ] [LT κ]

/-- The keys step over the target behind this place, or, if there is none, at once. -/
def StepsOver (keys : Nat → κ) (target : κ) (count : Nat) : Option Nat → Prop
  | none => count = 0 ∨ target < keys 0
  | some i => i < count ∧ keys i ≤ target ∧ (i + 1 = count ∨ target < keys (i + 1))

/-- The greatest of the places whose keys are not beyond the target, if there is one. -/
def Greatest (keys : Nat → κ) (target : κ) (count : Nat) : Option Nat → Prop
  | none => ∀ i < count, ¬ keys i ≤ target
  | some i => IsGreatest {i | i < count ∧ keys i ≤ target} i

theorem StepsOver.greatest [Std.IsLinearPreorder κ] [Std.LawfulOrderLT κ] {keys : Nat → κ}
    {target : κ} {count : Nat} {place : Option Nat} (h : StepsOver keys target count place)
    (ascending : ∀ i j, i ≤ j → j < count → keys i ≤ keys j) :
    Greatest keys target count place := by
  have hbeyond {i j : Nat} (hi : target < keys i) (hij : i ≤ j) (hj : j < count) :
      ¬ keys j ≤ target := by
    intro hle
    exact Std.not_le.mpr hi (Std.le_trans (ascending i j hij hj) hle)
  cases place with
  | none =>
    intro i hi
    rcases h with rfl | hfirst
    · exact absurd hi (Nat.not_lt_zero i)
    · exact hbeyond hfirst (Nat.zero_le i) hi
  | some i =>
    obtain ⟨hi, hle, hnext⟩ := h
    refine ⟨⟨hi, hle⟩, fun j hj => Nat.le_of_not_lt fun hij => ?_⟩
    rcases hnext with hlast | hnext
    · exact absurd hj.1 (by omega)
    · exact hbeyond hnext hij hj.1 hj.2

end Places

/-- What a search comes to among `count` rows, each of them a key and what it stands for. -/
structure Locates {σ α : Type} [LE κ] [LT κ] (search : σ → Except ε (Option α))
    (row : σ → Nat → Except ε (κ × α)) (target : κ) (count : Nat) : Prop where
  /-- Whatever the rows are, and whether or not they can be had, the search ends after few of
  them, and does not ask for one behind the last. -/
  asks : ∀ source, Asks row count (count.log2 + 2) source search
  /-- Among rows that can be had, one in front of a step over the target is selected, and
  none only if the first one is beyond the target. -/
  selects : ∀ source (rows : Nat → κ × α), (∀ i < count, row source i = .ok (rows i)) →
    ∃ place, search source = .ok (place.map fun i => (rows i).2) ∧
      StepsOver (fun i => (rows i).1) target count place ∧
      ((∀ i j, i ≤ j → j < count → (rows i).1 ≤ (rows j).1) →
        Greatest (fun i => (rows i).1) target count place)

end Search

namespace LookupTable

open Search (Asks Locates StepsOver)

variable (table : LookupTable) (pc : Word)

/-- The start of a function and the address of its frame entry. -/
def row (space : AddressSpace) (index : Nat) : Except CfiError (Word × Word) := do
  table.entry space (← table.valueSize) index

variable {table} in
theorem row_eq {size : Nat} (hsize : table.valueSize = .ok size) (space : AddressSpace)
    (index : Nat) : table.row space index = table.entry space size index := by
  unfold row
  rw [hsize]
  rfl

variable {table} in
theorem toNat_count_pos (h : table.count ≠ 0) : 0 < table.count.toNat :=
  UInt64.lt_iff_toNat_lt.mp (UInt64.pos_iff_ne_zero.mpr h)

/-- Beside the rows that it narrows over, the search asks for the one where it ends. -/
theorem asks_search (space : AddressSpace) :
    Asks table.row table.count.toNat (table.count.toNat.log2 + 2) space (table.search · pc) := by
  by_cases hcount : table.count = 0
  · simp only [search_of_no_rows hcount]
    exact .const _
  · cases hsize : table.valueSize with
    | error error =>
      have hrefused (space : AddressSpace) : table.search space pc = .error error := by
        unfold search
        rw [if_neg hcount, hsize]
        rfl
      simp only [hrefused]
      exact .const _
    | ok size =>
      have hnarrow : Asks table.row table.count.toNat (table.count.toNat.log2 + 1) space
          fun space => Search.narrow (Prod.fst <$> table.row space ·) pc 0 table.count.toNat := by
        refine Asks.of_keys (fun space i => Prod.fst <$> table.row space i)
          (Search.narrow · pc 0 table.count.toNat) ?_ fun _ i hi => congrArg (Prod.fst <$> ·) hi
        exact Search.asks_narrow _ pc 0 (Nat.le_of_lt Nat.lt_log2_self)
          (Nat.le_of_eq (Nat.zero_add _))
      simp only [search_eq hcount hsize, ← row_eq hsize]
      refine hnarrow.bind (m := 1) fun index hindex => ?_
      refine Asks.round (n := 0) ?_ fun _ => .const _
      exact Nat.lt_of_lt_of_eq (Search.narrow_lt hindex (toNat_count_pos hcount)) (Nat.zero_add _)

theorem selects_search (space : AddressSpace) {rows : Nat → Word × Word}
    (h : ∀ i < table.count.toNat, table.row space i = .ok (rows i)) :
    ∃ place, table.search space pc = .ok (place.map fun i => (rows i).2) ∧
      StepsOver (fun i => (rows i).1) pc table.count.toNat place := by
  by_cases hcount : table.count = 0
  · rw [search_of_no_rows hcount, hcount]
    exact ⟨none, rfl, .inl rfl⟩
  · have hpos := toNat_count_pos hcount
    cases hsize : table.valueSize with
    | error error =>
      have hfirst := h 0 hpos
      unfold row at hfirst
      rw [hsize] at hfirst
      cases hfirst
    | ok size =>
      have hentry (i : Nat) (hi : i < table.count.toNat) :
          table.entry space size i = .ok (rows i) :=
        (row_eq hsize space i).symm.trans (h i hi)
      have hstart (i : Nat) (hi : i < 0 + table.count.toNat) :
          Prod.fst <$> table.entry space size i = .ok (rows i).1 := by
        rw [hentry i (by omega)]
        rfl
      obtain ⟨index, hindex, -, hin, hhere, hnext⟩ := Search.narrow_ok pc 0 hpos fun i _ => hstart i
      rw [Nat.zero_add] at hin hnext
      rw [search_eq hcount hsize, hindex]
      change ∃ place, (table.entry space size index >>= _) = _ ∧ _
      rw [hentry index hin]
      by_cases hfirst : pc < (rows index).1
      · rcases hhere with rfl | hle
        · exact ⟨none, if_pos hfirst, .inr hfirst⟩
        · exact absurd hfirst (UInt64.not_lt.mpr hle)
      · exact ⟨some index, if_neg hfirst, hin, UInt64.not_lt.mp hfirst,
          hnext.imp_right UInt64.not_le.mp⟩

end LookupTable

section Found

variable {ε : Type} (target : UInt32) (count : Nat)

/-- The keys by themselves, as rows that stand for their own places. -/
def Search.numbered {κ : Type} (key : Nat → Except ε κ) (i : Nat) : Except ε (κ × Nat) :=
  (key i).map (·, i)

theorem Search.numbered_inj {κ : Type} {key key' : Nat → Except ε κ} {i : Nat}
    (h : numbered key' i = numbered key i) : key' i = key i := by
  unfold numbered at h
  cases hkey : key i <;> cases hkey' : key' i <;> simp_all [Except.map]

theorem Search.asks_lastAtOrBefore (key : Nat → Except ε UInt32) :
    Asks numbered count (count.log2 + 2) key (lastAtOrBefore · target count) := by
  have hcount :
      Asks (fun keys => keys) count (count.log2 + 1) key (countBetween · target 0 count) :=
    asks_countBetween key target Nat.lt_log2_self (Nat.le_refl count)
  have hnumbered : Asks numbered count (count.log2 + 1) key (countBetween · target 0 count) :=
    Asks.of_keys (fun keys => keys) (countBetween · target 0 count) hcount fun _ _ => numbered_inj
  refine hnumbered.bind (m := 1) fun found _ => ?_
  cases found <;> exact .const _

theorem Search.selects_lastAtOrBefore {key : Nat → Except ε UInt32} {rows : Nat → UInt32 × Nat}
    (h : ∀ i < count, numbered key i = .ok (rows i)) :
    ∃ place, lastAtOrBefore key target count = .ok (place.map fun i => (rows i).2) ∧
      StepsOver (fun i => (rows i).1) target count place := by
  have hrow (i : Nat) (hi : i < count) : key i = .ok (rows i).1 ∧ (rows i).2 = i := by
    have hi := h i hi
    unfold numbered at hi
    obtain ⟨k, hk, hrow⟩ := Outcome.map_eq_ok.mp hi
    rw [← hrow]
    exact ⟨hk, rfl⟩
  obtain ⟨found, hfound, -, hto, hbefore, hbehind⟩ :=
    countBetween_ok target (Nat.zero_le count) fun i _ hi => (hrow i hi).1
  unfold lastAtOrBefore
  rw [hfound]
  cases found with
  | zero => exact ⟨none, rfl, hbehind.imp Eq.symm UInt32.not_le.mp⟩
  | succ i =>
    refine ⟨some i, ?_, hto, hbefore.resolve_left (Nat.succ_ne_zero i), ?_⟩
    · rw [Option.map_some, (hrow i hto).2]
      rfl
    · exact hbehind.imp_right UInt32.not_le.mp

/-- Both searches end at a step over the target, in whichever order the rows are. -/
theorem Search.searches_locate :
    (∀ (ε : Type) (target : UInt32) (count : Nat),
      Locates (fun key : Nat → Except ε UInt32 => lastAtOrBefore key target count) numbered
        target count) ∧
    ∀ (table : LookupTable) (pc : Word),
      Locates (table.search · pc) table.row pc table.count.toNat := by
  constructor
  · intro ε target count
    refine ⟨asks_lastAtOrBefore target count, fun key rows h => ?_⟩
    obtain ⟨place, hplace, hsteps⟩ := selects_lastAtOrBefore target count h
    exact ⟨place, hplace, hsteps, hsteps.greatest⟩
  · intro table pc
    refine ⟨table.asks_search pc, fun space rows h => ?_⟩
    obtain ⟨place, hplace, hsteps⟩ := table.selects_search pc space h
    exact ⟨place, hplace, hsteps, hsteps.greatest⟩

end Found

end Unwinding
