import Mathlib.Data.List.InsertIdx
import Mathlib.Data.List.Perm.Subperm
import Mathlib.Data.Nat.Factorial.Basic
import Mathlib.Tactic.IntervalCases
import Unwinding.Compact.Permutation

/-!
# Orders and their codes

The Lehmer code of an order of some members of a list is its place among all
orders of as many members, in lexicographic order. Each choice is worth as many
codes as there are ways to go on behind it, so that the weight of a digit is a
falling factorial, and dividing by it leaves the code of what comes behind. The
table of weights that codes are decoded with has just these, but for the last
choice of six, which has only one member left to choose.
-/

namespace Unwinding.Permutation

variable {α : Type}

/-- The order chooses members of `free`, and none of them twice. -/
structure Chooses (free order : List α) : Prop where
  nodup : order.Nodup
  subset : ∀ a ∈ order, a ∈ free

variable {free rest : List α} {a : α}

theorem Chooses.length_le {order : List α} (h : Chooses free order) :
    order.length ≤ free.length :=
  (List.subperm_of_subset h.nodup h.subset).length_le

theorem Chooses.head_mem (h : Chooses free (a :: rest)) : a ∈ free :=
  h.subset a List.mem_cons_self

variable [DecidableEq α]

/-- The rank of each choice among the members not yet chosen. -/
def ranks : (free order : List α) → List Nat
  | _, [] => []
  | free, a :: rest => free.idxOf a :: ranks (free.erase a) rest

/-- The Lehmer code of an order of members of `free`. -/
def lehmer : (free order : List α) → Nat
  | _, [] => 0
  | free, a :: rest =>
    free.idxOf a * (free.length - 1).descFactorial rest.length + lehmer (free.erase a) rest

/-- The weights of `count` choices among `size` members. -/
def places : (size count : Nat) → List Nat
  | _, 0 => []
  | size, count + 1 => (size - 1).descFactorial count :: places (size - 1) count

theorem Chooses.tail (h : Chooses free (a :: rest)) : Chooses (free.erase a) rest where
  nodup := (List.nodup_cons.mp h.nodup).2
  subset := by
    intro b hb
    have hne : b ≠ a := by
      rintro rfl
      exact (List.nodup_cons.mp h.nodup).1 hb
    exact (List.mem_erase_of_ne hne).mpr (h.subset b (List.mem_cons_of_mem a hb))

theorem lehmer_lt {order : List α} (h : Chooses free order) :
    lehmer free order < free.length.descFactorial order.length := by
  induction order generalizing free with
  | nil => exact Nat.one_pos
  | cons a rest ih =>
    have hrest := ih h.tail
    have hrank := List.idxOf_lt_length_of_mem h.head_mem
    obtain ⟨size, hsize⟩ := Nat.exists_eq_add_one_of_ne_zero (Nat.ne_zero_of_lt hrank)
    rw [List.length_erase_of_mem h.head_mem] at hrest
    rw [lehmer, List.length_cons, hsize, Nat.succ_descFactorial_succ]
    rw [hsize, Nat.add_sub_cancel] at hrest
    calc _ < free.idxOf a * size.descFactorial rest.length +
          size.descFactorial rest.length := Nat.add_lt_add_left hrest _
      _ = (free.idxOf a + 1) * size.descFactorial rest.length := (Nat.succ_mul _ _).symm
      _ ≤ (size + 1) * size.descFactorial rest.length :=
          Nat.mul_le_mul_right _ (hsize ▸ Nat.succ_le_of_lt hrank)

theorem digits_lehmer {order : List α} (h : Chooses free order) :
    digits (places free.length order.length) (lehmer free order) = ranks free order := by
  induction order generalizing free with
  | nil => rfl
  | cons a rest ih =>
    have hrest := lehmer_lt h.tail
    have hlength := List.length_erase_of_mem h.head_mem
    have htail := ih h.tail
    rw [hlength] at hrest htail
    have hweight := Nat.zero_lt_of_lt hrest
    rw [List.length_cons, places, lehmer, digits, ranks, Nat.mul_comm, Nat.mul_add_div hweight,
      Nat.div_eq_of_lt hrest, Nat.add_zero, Nat.mul_add_mod, Nat.mod_eq_of_lt hrest, htail]

theorem choose_ranks_append {order : List α} (h : Chooses free order) (name : α → Nat)
    (more : List Nat) : choose (free.map name ++ more) (ranks free order) = order.map name := by
  induction order generalizing free with
  | nil => rw [ranks, choose, List.map_nil]
  | cons a rest ih =>
    have hrank := List.idxOf_lt_length_of_mem h.head_mem
    have hfront : free.idxOf a < (free.map name).length := by rwa [List.length_map]
    have hchosen : (free.map name ++ more)[free.idxOf a]? = some (name a) := by
      rw [List.getElem?_append_left hfront, List.getElem?_map, List.getElem?_eq_getElem hrank,
        List.getElem_idxOf hrank]
      rfl
    rw [ranks, choose, hchosen]
    dsimp only
    rw [List.eraseIdx_append_of_lt_length hfront, List.eraseIdx_map, List.eraseIdx_idxOf_eq_erase,
      ih h.tail, List.map_cons]

theorem choose_ranks {order : List α} (h : Chooses free order) (name : α → Nat) :
    choose (free.map name) (ranks free order) = order.map name := by
  have hchosen := choose_ranks_append h name []
  rwa [List.append_nil] at hchosen

/-- Every number below that of all orders is the code of one. -/
theorem exists_lehmer (hfree : free.Nodup) {count code : Nat}
    (h : code < free.length.descFactorial count) :
    ∃ order, Chooses free order ∧ order.length = count ∧ lehmer free order = code := by
  induction count generalizing free code with
  | zero =>
    have hcode : code = 0 := Nat.lt_one_iff.mp h
    exact ⟨[], ⟨List.nodup_nil, nofun⟩, rfl, hcode.symm⟩
  | succ count ih =>
    have hne : free.length ≠ 0 := by
      intro hzero
      rw [hzero, Nat.zero_descFactorial_succ] at h
      exact Nat.not_lt_zero _ h
    obtain ⟨size, hsize⟩ := Nat.exists_eq_add_one_of_ne_zero hne
    rw [hsize, Nat.succ_descFactorial_succ] at h
    have hweight : 0 < size.descFactorial count :=
      Nat.pos_of_mul_pos_left (Nat.zero_lt_of_lt h)
    have hrank : code / size.descFactorial count < free.length := by
      rw [hsize]
      exact Nat.div_lt_of_lt_mul (Nat.mul_comm _ _ ▸ h)
    let a := free[code / size.descFactorial count]
    have hmem : a ∈ free := List.getElem_mem hrank
    have hleft : (free.erase a).length = size := by
      rw [List.length_erase_of_mem hmem, hsize, Nat.add_sub_cancel]
    have hbehind : code % size.descFactorial count < (free.erase a).length.descFactorial count := by
      rw [hleft]
      exact Nat.mod_lt code hweight
    obtain ⟨rest, hchooses, hlength, hcode⟩ := ih (hfree.erase a) hbehind
    refine ⟨a :: rest, ⟨List.nodup_cons.mpr ⟨?_, hchooses.nodup⟩, ?_⟩, ?_, ?_⟩
    · exact fun ha => hfree.not_mem_erase (hchooses.subset a ha)
    · intro b hb
      rcases List.mem_cons.mp hb with rfl | hb
      · exact hmem
      · exact List.mem_of_mem_erase (hchooses.subset b hb)
    · rw [List.length_cons, hlength]
    · rw [lehmer, hcode, hlength, hfree.idxOf_getElem, hsize, Nat.add_sub_cancel, Nat.mul_comm]
      exact Nat.div_add_mod code _

theorem zero_mem_ranks {order : List α} (h : Chooses (a :: free) order) :
    0 ∈ ranks (a :: free) order ↔ a ∈ order := by
  induction order generalizing free with
  | nil => exact iff_of_false List.not_mem_nil List.not_mem_nil
  | cons b rest ih =>
    rw [ranks, List.mem_cons, List.mem_cons]
    by_cases hab : a = b
    · refine iff_of_true (.inl ?_) (.inl hab)
      rw [hab, List.idxOf_cons_self]
    · have htail := h.tail
      have herase : (a :: free).erase b = a :: free.erase b := by
        rw [List.erase_cons_tail (by simpa using hab)]
      rw [herase] at htail ⊢
      rw [List.idxOf_cons_ne free hab]
      simpa [hab] using ih htail

/-- The last of six choices is no choice, so its digit may be left out. -/
theorem digits_weights {count : Nat} (h : count ≤ 6) (code : Nat) :
    (digits (weights count) code ++ List.replicate 6 0).take count =
      digits (places 6 count) code := by
  interval_cases count <;> simp [weights, places, digits, Nat.descFactorial, Nat.mod_one]

theorem decode_lehmer {order : List α} (h : Chooses free order) {name : α → Nat}
    (hfree : free.map name = List.range 6) :
    (decode order.length (lehmer free order)).take order.length = order.map name := by
  have hsize : free.length = 6 := by
    rw [← List.length_map name, hfree, List.length_range]
  have hle : order.length ≤ 6 := hsize ▸ h.length_le
  have hchosen : choose (List.range 6)
      ((digits (weights order.length) (lehmer free order) ++ List.replicate 6 0).take
        order.length) = order.map name := by
    rw [digits_weights hle, ← hsize, digits_lehmer h, hsize, ← hfree, choose_ranks h]
  unfold decode
  dsimp only
  rw [hchosen, List.take_take, Nat.min_eq_left hle, List.take_append_of_le_length (by simp),
    List.take_of_length_le (by simp)]

/-- A value beyond all codes has a first digit that chooses nothing. It stands for a
further choice of the first number, which the other digits may choose again: they
are the code of an order of the first five. -/
theorem decode_of_le {count code : Nat} (hcount : count < 6)
    (h : (6).descFactorial (count + 1) ≤ code) (hnodup : free.Nodup) {name : α → Nat} {last : Nat}
    (hfree : free.map name ++ [last] = List.range 6) :
    ∃ order, Chooses free order ∧ order.length = count ∧
      digits (places 6 (count + 1)) code =
        code / (5).descFactorial count :: ranks free order ∧
      6 ≤ code / (5).descFactorial count ∧
      (decode (count + 1) code).take (count + 1) = 0 :: order.map name := by
  have hsize : free.length = 5 := by
    have hlength := congrArg List.length hfree
    rw [List.length_append, List.length_map, List.length_range] at hlength
    exact Nat.succ.inj hlength
  have hweight : 0 < (5).descFactorial count :=
    Nat.pos_of_ne_zero fun hzero => by
      rw [Nat.descFactorial_eq_zero_iff_lt] at hzero
      exact Nat.not_lt.mpr (Nat.le_of_lt_succ hcount) hzero
  have hbehind : code % (5).descFactorial count < free.length.descFactorial count := by
    rw [hsize]
    exact Nat.mod_lt code hweight
  obtain ⟨order, hchooses, hlength, hcode⟩ := exists_lehmer hnodup hbehind
  have hfirst : 6 ≤ code / (5).descFactorial count := by
    rw [Nat.succ_descFactorial_succ] at h
    exact (Nat.le_div_iff_mul_le hweight).mpr h
  have hdigits : digits (places 6 (count + 1)) code =
      code / (5).descFactorial count :: ranks free order := by
    rw [places, digits, ← digits_lehmer hchooses, hsize, hlength, hcode]
  have hchosen : choose (List.range 6)
      ((digits (weights (count + 1)) code ++ List.replicate 6 0).take (count + 1)) =
        0 :: order.map name := by
    rw [digits_weights hcount, hdigits, choose, List.getElem?_eq_none (by simpa using hfirst)]
    dsimp only
    rw [← hfree, choose_ranks_append hchooses]
  refine ⟨order, hchooses, hlength, hdigits, hfirst, ?_⟩
  unfold decode
  dsimp only
  rw [hchosen, List.take_take, Nat.min_eq_left hcount,
    List.take_append_of_le_length (by simp [hlength]), List.take_of_length_le (by simp [hlength])]

end Unwinding.Permutation
