import Unwinding.Lookup.Search

/-!
# Where a search by key ends

The keys may be in any order. The search that narrows a base and a length ends
at a place where the keys step over the target: its own key is not beyond the
target, unless it is the first entry, and the next one is, unless it is the
last. The search that narrows both ends stops between two such entries. If the
keys ascend, there is only one such place.
-/

namespace Unwinding.Search

variable {ε κ : Type} [LE κ] [DecidableLE κ]

section Rounds

variable (key : Nat → Except ε κ) (target : κ)

theorem narrow_round (base : Nat) {length : Nat} (h : 1 < length) :
    narrow key target base length =
      (key (base + length / 2) >>= fun k =>
        if k ≤ target then narrow key target (base + length / 2) (length - length / 2)
        else narrow key target base (length / 2)) := by
  rw [narrow, if_pos h]

theorem narrow_done (base : Nat) {length : Nat} (h : ¬ 1 < length) :
    narrow key target base length = .ok base := by
  rw [narrow, if_neg h]

theorem countBetween_round {low high : Nat} (h : low < high) :
    countBetween key target low high =
      (key (low + (high - low) / 2) >>= fun k =>
        if k ≤ target then countBetween key target (low + (high - low) / 2 + 1) high
        else countBetween key target low (low + (high - low) / 2)) := by
  rw [countBetween, if_pos h]

theorem countBetween_done {low high : Nat} (h : ¬ low < high) :
    countBetween key target low high = .ok low := by
  rw [countBetween, if_neg h]

end Rounds

theorem narrow_step {key : Nat → Except ε κ} {target k : κ} {base length : Nat}
    (hlength : 1 < length) (hkey : key (base + length / 2) = .ok k) :
    narrow key target base length =
      if k ≤ target then narrow key target (base + length / 2) (length - length / 2)
      else narrow key target base (length / 2) := by
  rw [narrow_round key target base hlength, hkey]
  rfl

theorem narrow_ok {key : Nat → Except ε κ} {keys : Nat → κ} (target : κ) (base : Nat)
    {length : Nat} (hlength : 0 < length)
    (hkeys : ∀ i, base ≤ i → i < base + length → key i = .ok (keys i)) :
    ∃ index, narrow key target base length = .ok index ∧
      base ≤ index ∧ index < base + length ∧
      (index = base ∨ keys index ≤ target) ∧
      (index + 1 = base + length ∨ ¬ keys (index + 1) ≤ target) := by
  induction length using Nat.strongRecOn generalizing base with
  | ind length ih =>
    by_cases hone : 1 < length
    · have hmiddle := hkeys (base + length / 2) (by omega) (by omega)
      rw [narrow_step hone hmiddle]
      by_cases hle : keys (base + length / 2) ≤ target
      · rw [if_pos hle]
        obtain ⟨index, hindex, hlow, hhigh, hkey, hnext⟩ :=
          ih (length - length / 2) (by omega) (base + length / 2) (by omega)
            fun i hi hi' => hkeys i (by omega) (by omega)
        refine ⟨index, hindex, by omega, by omega, .inr ?_, ?_⟩
        · rcases hkey with rfl | hkey
          · exact hle
          · exact hkey
        · rcases hnext with hlast | hnext
          · exact .inl (by omega)
          · exact .inr hnext
      · rw [if_neg hle]
        obtain ⟨index, hindex, hlow, hhigh, hkey, hnext⟩ :=
          ih (length / 2) (by omega) base (by omega)
            fun i hi hi' => hkeys i hi (by omega)
        refine ⟨index, hindex, hlow, by omega, hkey, .inr ?_⟩
        rcases hnext with hlast | hnext
        · rw [hlast]
          exact hle
        · exact hnext
    · exact ⟨base, narrow_done key target base hone, Nat.le_refl base, by omega, .inl rfl,
        .inl (by omega)⟩

theorem countBetween_step {key : Nat → Except ε κ} {target k : κ} {low high : Nat}
    (h : low < high) (hkey : key (low + (high - low) / 2) = .ok k) :
    countBetween key target low high =
      if k ≤ target then countBetween key target (low + (high - low) / 2 + 1) high
      else countBetween key target low (low + (high - low) / 2) := by
  rw [countBetween_round key target h, hkey]
  rfl

theorem countBetween_ok {key : Nat → Except ε κ} {keys : Nat → κ} (target : κ) {low high : Nat}
    (h : low ≤ high) (hkeys : ∀ i, low ≤ i → i < high → key i = .ok (keys i)) :
    ∃ count, countBetween key target low high = .ok count ∧ low ≤ count ∧ count ≤ high ∧
      (count = low ∨ keys (count - 1) ≤ target) ∧ (count = high ∨ ¬ keys count ≤ target) := by
  induction width : high - low using Nat.strongRecOn generalizing low high with
  | ind width ih =>
    by_cases hlow : low < high
    · have hmiddle := hkeys (low + (high - low) / 2) (by omega) (by omega)
      rw [countBetween_step hlow hmiddle]
      by_cases hle : keys (low + (high - low) / 2) ≤ target
      · rw [if_pos hle]
        obtain ⟨count, hcount, hfrom, hto, hbefore, hbehind⟩ :=
          ih (high - (low + (high - low) / 2 + 1)) (by omega) (by omega)
            (fun i hi hi' => hkeys i (by omega) hi') rfl
        refine ⟨count, hcount, by omega, hto, .inr ?_, hbehind⟩
        rcases hbefore with rfl | hbefore
        · exact hle
        · exact hbefore
      · rw [if_neg hle]
        obtain ⟨count, hcount, hfrom, hto, hbefore, hbehind⟩ :=
          ih (low + (high - low) / 2 - low) (by omega) (by omega)
            (fun i hi hi' => hkeys i hi (by omega)) rfl
        refine ⟨count, hcount, hfrom, by omega, hbefore, .inr ?_⟩
        rcases hbehind with rfl | hbehind
        · exact hle
        · exact hbehind
    · have hsame : low = high := by omega
      exact ⟨low, countBetween_done key target hlow, Nat.le_refl low, h, .inl rfl, .inl hsame⟩

theorem countBetween_eq_ok {key : Nat → Except ε κ} {target : κ} {low high count : Nat}
    (h : countBetween key target low high = .ok count) (hle : low ≤ high) :
    low ≤ count ∧ count ≤ high ∧ (low < count → ∃ k, key (count - 1) = .ok k ∧ k ≤ target) := by
  induction width : high - low using Nat.strongRecOn generalizing low high with
  | ind width ih =>
    by_cases hlow : low < high
    · cases hkey : key (low + (high - low) / 2) with
      | error error =>
        rw [countBetween_round key target hlow, hkey] at h
        cases h
      | ok k =>
        rw [countBetween_step hlow hkey] at h
        by_cases hk : k ≤ target
        · rw [if_pos hk] at h
          obtain ⟨hfrom, hto, hlast⟩ := ih _ (by omega) h (by omega) rfl
          refine ⟨by omega, hto, fun _ => ?_⟩
          rcases Nat.lt_or_eq_of_le hfrom with hlt | heq
          · exact hlast hlt
          · rw [← heq]
            exact ⟨k, hkey, hk⟩
        · rw [if_neg hk] at h
          obtain ⟨hfrom, hto, hlast⟩ := ih _ (by omega) h (by omega) rfl
          exact ⟨hfrom, by omega, hlast⟩
    · rw [countBetween_done key target hlow] at h
      cases h
      exact ⟨Nat.le_refl _, hle, fun hlt => absurd hlt (Nat.lt_irrefl _)⟩

theorem lastAtOrBefore_eq_some {key : Nat → Except ε κ} {target : κ} {count place : Nat}
    (h : lastAtOrBefore key target count = .ok (some place)) :
    place < count ∧ ∃ k, key place = .ok k ∧ k ≤ target := by
  unfold lastAtOrBefore at h
  cases hcount : countBetween key target 0 count with
  | error error =>
    rw [hcount] at h
    cases h
  | ok found =>
    rw [hcount] at h
    cases found with
    | zero => cases h
    | succ index =>
      cases h
      obtain ⟨-, hto, hlast⟩ := countBetween_eq_ok hcount (Nat.zero_le count)
      exact ⟨hto, hlast (Nat.succ_pos _)⟩

/-- The place of the last of the rows that do not come behind the target. -/
def LastUpTo {α : Type} (rows : List α) (offset : α → UInt32) (target : UInt32) :
    Option Nat → Prop
  | none => ∀ row ∈ rows, target < offset row
  | some i => ∃ h : i < rows.length, offset rows[i] ≤ target ∧
      ∀ j, ∀ hj : j < rows.length, i < j → target < offset rows[j]

theorem LastUpTo.congr {α : Type} {rows : List α} {offset offset' : α → UInt32}
    {target target' : UInt32} {place : Option Nat} (h : LastUpTo rows offset target place)
    (same : ∀ row ∈ rows, target < offset row ↔ target' < offset' row) :
    LastUpTo rows offset' target' place := by
  cases place with
  | none => exact fun row hrow => (same row hrow).mp (h row hrow)
  | some i =>
    obtain ⟨hi, hle, hlater⟩ := h
    refine ⟨hi, ?_, fun j hj hij => (same _ (List.getElem_mem hj)).mp (hlater j hj hij)⟩
    rw [← UInt32.not_lt, ← same _ (List.getElem_mem hi)]
    exact UInt32.not_lt.mpr hle

theorem LastUpTo.unique {α : Type} {rows : List α} {offset : α → UInt32} {target : UInt32}
    {place place' : Option Nat} (h : LastUpTo rows offset target place)
    (h' : LastUpTo rows offset target place') : place = place' := by
  have hwithin {i : Nat} {other : Option Nat} (hi : LastUpTo rows offset target (some i))
      (hother : LastUpTo rows offset target other) : ∃ j, other = some j ∧ i ≤ j := by
    obtain ⟨hi, hle, -⟩ := hi
    cases other with
    | none => exact absurd (hother _ (List.getElem_mem hi)) (UInt32.not_lt.mpr hle)
    | some j =>
      refine ⟨j, rfl, Nat.le_of_not_lt fun hji => ?_⟩
      exact absurd (hother.2.2 i hi hji) (UInt32.not_lt.mpr hle)
  cases place with
  | none =>
    cases place' with
    | none => rfl
    | some j =>
      obtain ⟨i, hi, -⟩ := hwithin h' h
      cases hi
  | some i =>
    obtain ⟨j, rfl, hij⟩ := hwithin h h'
    obtain ⟨i', hi', hji⟩ := hwithin h' h
    cases hi'
    exact congrArg some (Nat.le_antisymm hij hji)

theorem offset_le_of_le {α : Type} {rows : List α} {offset : α → UInt32}
    (ascending : rows.Pairwise (offset · < offset ·)) {i j : Nat} (hi : i < rows.length)
    (hj : j < rows.length) (hij : i ≤ j) : offset rows[i] ≤ offset rows[j] := by
  rcases Nat.lt_or_eq_of_le hij with hlt | rfl
  · exact UInt32.le_of_lt (List.pairwise_iff_getElem.mp ascending i j hi hj hlt)
  · exact UInt32.le_refl _

/-- In ascending rows the search ends at the last one up to the target. -/
theorem lastAtOrBefore_ok {α : Type} {rows : List α} {offset : α → UInt32}
    (ascending : rows.Pairwise (offset · < offset ·)) {key : Nat → Except ε UInt32}
    (hkeys : ∀ i, ∀ h : i < rows.length, key i = .ok (offset rows[i])) (target : UInt32) :
    ∃ place, lastAtOrBefore key target rows.length = .ok place ∧
      LastUpTo rows offset target place := by
  let keys (i : Nat) : UInt32 := if h : i < rows.length then offset rows[i] else 0
  have hoffset : ∀ i, ∀ h : i < rows.length, keys i = offset rows[i] := fun i h => dif_pos h
  have hkey : ∀ i, 0 ≤ i → i < rows.length → key i = .ok (keys i) := by
    intro i _ hi
    rw [hkeys i hi, hoffset i hi]
  obtain ⟨count, hcount, -, hto, hbefore, hbehind⟩ :=
    countBetween_ok target (Nat.zero_le rows.length) hkey
  have hlater : ∀ j, ∀ hj : j < rows.length, count ≤ j → target < offset rows[j] := by
    intro j hj hle
    rcases hbehind with hall | hbehind
    · omega
    · have hin : count < rows.length := by omega
      rw [hoffset count hin] at hbehind
      exact UInt32.lt_of_lt_of_le (UInt32.not_le.mp hbehind) (offset_le_of_le ascending hin hj hle)
  cases count with
  | zero =>
    refine ⟨none, ?_, ?_⟩
    · unfold lastAtOrBefore
      rw [hcount]
      rfl
    · intro row hrow
      obtain ⟨j, hj, rfl⟩ := List.mem_iff_getElem.mp hrow
      exact hlater j hj (Nat.zero_le j)
  | succ i =>
    refine ⟨some i, ?_, hto, ?_, fun j hj hij => hlater j hj hij⟩
    · unfold lastAtOrBefore
      rw [hcount]
      rfl
    · have hle := hbefore.resolve_left (Nat.succ_ne_zero i)
      rw [Nat.add_sub_cancel, hoffset i hto] at hle
      exact hle

end Unwinding.Search
