import Unwinding.Memory.Snapshot
import Unwinding.Proofs.Compact.Frameless

/-!
# Values that are the code of no order

The field for the order of the saved registers has more values than there are
orders. Only the first digit of a value is not bounded by those before it, and where
it is too high it chooses nothing. The encoding is not refused for that: register 3
is taken for the missing choice, and the other digits may choose it again. Then one
register less has a place than the encoding counts, and the lowest place belongs to
none. In all other cases each place belongs to a register of its own.
-/

namespace Unwinding.Compact.X64

open Permutation

variable {space : AddressSpace} {encoding : CompactEncoding} {start : Word} {size : Int64}

/-- The permutation is the code of an order of as many registers as are counted. -/
def Denotes (encoding : CompactEncoding) : Prop :=
  ∃ registers, Chooses preserved registers ∧ registers.length = encoding.field 10 3 ∧
    lehmer preserved registers = encoding.field 0 10

/-- As many registers as are counted have rules, and each a place of its own: the
words below the return address, one after the other. -/
def Arranged (encoding : CompactEncoding) (size : Int64) (row : Row) : Prop :=
  ∃ registers, Chooses preserved registers ∧ registers.length = encoding.field 10 3 ∧
    FramelessRow registers size row

/-- The first digit of the permutation is too high, so that it names the first
register, and a digit behind it names that register as well. -/
def NamesTwice (encoding : CompactEncoding) : Prop :=
  ∃ first later, digits (places 6 (encoding.field 10 3)) (encoding.field 0 10) = first :: later ∧
    6 ≤ first ∧ 0 ∈ later

theorem denotes_iff : Denotes encoding ↔
    encoding.field 0 10 < (6).descFactorial (encoding.field 10 3) := by
  constructor
  · rintro ⟨registers, hchosen, hlength, hcode⟩
    rw [← hlength, ← hcode]
    exact lehmer_lt hchosen
  · intro hlt
    have hnodup : preserved.Nodup := by decide
    exact exists_lehmer hnodup hlt

theorem Denotes.not_namesTwice (h : Denotes encoding) : ¬ NamesTwice encoding := by
  obtain ⟨registers, hchosen, hlength, hcode⟩ := h
  rintro ⟨first, later, hdigits, hfirst, -⟩
  have hranks : digits (places 6 (encoding.field 10 3)) (encoding.field 0 10) =
      ranks preserved registers := by
    rw [← hlength, ← hcode]
    exact digits_lehmer hchosen
  rw [hdigits] at hranks
  cases registers with
  | nil => cases hranks
  | cons r registers =>
    have hrank := List.idxOf_lt_length_of_mem hchosen.head_mem
    rw [← (List.cons.inj hranks).1] at hrank
    exact Nat.not_lt.mpr hfirst hrank

theorem FramelessRow.mem_iff {registers : List Register} {row : Row}
    (hchosen : Chooses preserved registers) (h : FramelessRow registers size row) {r : Register} :
    r ∈ registers ↔ r ≠ 16 ∧ row.rule r ≠ .unused := by
  constructor
  · intro hr
    obtain ⟨i, hi⟩ := List.getElem?_of_mem hr
    refine ⟨Nat.ne_of_lt (preserved_bounds r (hchosen.subset r hr)).1, ?_⟩
    rw [rule_pushed h hi]
    exact nofun
  · rintro ⟨hne, hrule⟩
    by_contra hr
    exact hrule (h.unruled r fun hmem => (List.mem_cons.mp hmem).elim hne hr)

theorem FramelessRow.length_eq {registers registers' : List Register} {size' : Int64} {row : Row}
    (hchosen : Chooses preserved registers) (h : FramelessRow registers size row)
    (hchosen' : Chooses preserved registers') (h' : FramelessRow registers' size' row) :
    registers.length = registers'.length := by
  have hsame : ∀ r, r ∈ registers ↔ r ∈ registers' := fun r =>
    (h.mem_iff hchosen).trans (h'.mem_iff hchosen').symm
  exact ((List.perm_ext_iff_of_nodup hchosen.nodup hchosen'.nodup).mpr hsame).length_eq

/-- The registers that end up with a place: as many as are counted, unless one of
them is named twice. -/
structure Places (encoding : CompactEncoding) (registers : List Register) : Prop where
  chosen : Chooses preserved registers
  count : ¬ NamesTwice encoding → registers.length = encoding.field 10 3
  short : NamesTwice encoding → registers.length + 1 = encoding.field 10 3
  order : Denotes encoding → lehmer preserved registers = encoding.field 0 10

section Rows

variable (hmode : encoding.mode = 2 ∨ encoding.mode = 3) (hsize : Sized space encoding start size)
include hmode hsize

theorem decode_of_pushes {saves : List (Register × Rule)} {row : Row}
    (hpushes : pushes encoding = .ok saves)
    (hrow : (bareRow size).setRules ((16, .inCfa (words (-1))) :: saves) = .ok row) :
    decode space encoding start = .ok (.row row) :=
  (decode_eq_ok hmode).mpr ⟨size, row, hsize, constantSize_eq_ok.mpr ⟨_, hpushes, hrow⟩, rfl⟩

theorem row_of_order {registers : List Register} (hchosen : Chooses preserved registers)
    (hcount : encoding.field 10 3 = registers.length)
    (horder : (Permutation.decode (encoding.field 10 3) (encoding.field 0 10)).take
      (encoding.field 10 3) = registers.map preserved.idxOf) :
    ∃ row, decode space encoding start = .ok (.row row) ∧ FramelessRow registers size row := by
  obtain ⟨row, hrow, hdescribed⟩ := exists_framelessRow hchosen size
  have hpushes := pushes_of_order (hcount ▸ length_le_six hchosen) hchosen.subset horder
  rw [hcount] at hpushes
  rw [slotRules_eq] at hrow
  exact ⟨row, decode_of_pushes hmode hsize hpushes hrow, hdescribed⟩

/-- Where the first register is named again, its first place is forgotten. -/
theorem row_of_repeated {rest : List Register} (hchosen : Chooses preserved rest) (hmem : 3 ∈ rest)
    (hle : encoding.field 10 3 ≤ 6) (hcount : encoding.field 10 3 = rest.length + 1)
    (horder : (Permutation.decode (encoding.field 10 3) (encoding.field 0 10)).take
      (encoding.field 10 3) = (3 :: rest).map preserved.idxOf) :
    ∃ row, decode space encoding start = .ok (.row row) ∧ FramelessRow rest size row := by
  obtain ⟨row, hrow, hdescribed⟩ := exists_framelessRow hchosen size
  have hall : ∀ r ∈ 3 :: rest, r ∈ preserved := List.forall_mem_cons.mpr ⟨by decide, hchosen.subset⟩
  have hpushes := pushes_of_order hle hall horder
  have hbehind : (rest.mapIdx fun i r =>
      (r, Rule.inCfa (words ((i + 1 : Nat) - 1 - encoding.field 10 3)))) =
        rest.mapIdx fun i r => (r, .inCfa (words (i - 1 - rest.length))) := by
    refine congrArg (List.mapIdx · rest) (funext fun i => funext fun r => ?_)
    refine congrArg (fun place => (r, Rule.inCfa (words place))) ?_
    omega
  have hnamed : 3 ∈ (rest.mapIdx fun i r =>
      (r, Rule.inCfa (words (i - 1 - rest.length)))).map Prod.fst := by
    obtain ⟨i, hi, h3⟩ := List.mem_iff_getElem.mp hmem
    exact List.mem_map.mpr ⟨_, List.mem_mapIdx.mpr ⟨i, hi, rfl⟩, h3⟩
  rw [List.mapIdx_cons, hbehind] at hpushes
  refine ⟨row, decode_of_pushes hmode hsize hpushes ?_, hdescribed⟩
  obtain ⟨middle, hfirst, hrest⟩ := Outcome.bind_eq_ok.mp (slotRules_eq ▸ hrow)
  refine Outcome.bind_eq_ok.mpr ⟨middle, hfirst, ?_⟩
  exact (Row.setRules_repeated (by decide) _ hnamed middle).trans hrest

theorem places_of_denotes (h : Denotes encoding) :
    ∃ row registers, decode space encoding start = .ok (.row row) ∧
      Places encoding registers ∧ FramelessRow registers size row := by
  have hplain := h.not_namesTwice
  obtain ⟨registers, hchosen, hlength, hcode⟩ := h
  have horder := decode_lehmer hchosen (by decide : preserved.map preserved.idxOf = List.range 6)
  rw [hlength, hcode] at horder
  obtain ⟨row, hrow, hdescribed⟩ := row_of_order hmode hsize hchosen hlength.symm horder
  exact ⟨row, registers, hrow, ⟨hchosen, fun _ => hlength, fun htwice => absurd htwice hplain,
    fun _ => hcode⟩, hdescribed⟩

theorem places_of_none (h : encoding.field 10 3 = 0) (hdenotes : ¬ Denotes encoding) :
    ∃ row registers, decode space encoding start = .ok (.row row) ∧
      Places encoding registers ∧ FramelessRow registers size row := by
  have hchosen : Chooses preserved [] := ⟨List.nodup_nil, nofun⟩
  have hplain : ¬ NamesTwice encoding := by
    rintro ⟨first, later, hdigits, -⟩
    rw [h] at hdigits
    cases hdigits
  have horder : (Permutation.decode (encoding.field 10 3) (encoding.field 0 10)).take
      (encoding.field 10 3) = ([] : List Register).map preserved.idxOf := by
    rw [h]
    rfl
  obtain ⟨row, hrow, hdescribed⟩ := row_of_order hmode hsize hchosen h horder
  exact ⟨row, [], hrow, ⟨hchosen, fun _ => h.symm, fun htwice => absurd htwice hplain,
    fun hdenotes' => absurd hdenotes' hdenotes⟩, hdescribed⟩

/-- The digits behind the first order the other registers, without the last of them. -/
theorem places_of_beyond {k : Nat} (hk : encoding.field 10 3 = k + 1) (hcount : k < 6)
    (hdenotes : ¬ Denotes encoding) :
    ∃ row registers, decode space encoding start = .ok (.row row) ∧
      Places encoding registers ∧ FramelessRow registers size row := by
  have hbeyond : (6).descFactorial (k + 1) ≤ encoding.field 0 10 :=
    Nat.le_of_not_lt fun hlt => hdenotes (denotes_iff.mpr (hk ▸ hlt))
  have hnodup : (preserved.take 5).Nodup := by decide
  have hnumbers : (preserved.take 5).map preserved.idxOf ++ [5] = List.range 6 := by decide
  obtain ⟨rest, hrest, hlength, hdigits, hfirst, hdecode⟩ :=
    decode_of_le hcount hbeyond hnodup hnumbers
  have hchosen : Chooses preserved rest :=
    ⟨hrest.nodup, fun r hr => List.mem_of_mem_take (hrest.subset r hr)⟩
  have htwice : NamesTwice encoding ↔ 3 ∈ rest := by
    have hzero : 0 ∈ ranks (preserved.take 5) rest ↔ 3 ∈ rest := zero_mem_ranks hrest
    unfold NamesTwice
    rw [hk, hdigits, ← hzero]
    constructor
    · rintro ⟨first, later, hcons, -, hzero⟩
      rwa [(List.cons.inj hcons).2]
    · exact fun hzero => ⟨_, _, rfl, hfirst, hzero⟩
  have horder : (Permutation.decode (encoding.field 10 3) (encoding.field 0 10)).take
      (encoding.field 10 3) = (3 :: rest).map preserved.idxOf := by
    rw [hk, hdecode]
    rfl
  have hlong : encoding.field 10 3 = rest.length + 1 := hlength ▸ hk
  by_cases hmem : 3 ∈ rest
  · have hle : encoding.field 10 3 ≤ 6 := hk ▸ hcount
    obtain ⟨row, hrow, hdescribed⟩ := row_of_repeated hmode hsize hchosen hmem hle hlong horder
    exact ⟨row, rest, hrow, ⟨hchosen, fun h => absurd (htwice.mpr hmem) h, fun _ => hlong.symm,
      fun h => absurd h hdenotes⟩, hdescribed⟩
  · have hwhole : Chooses preserved (3 :: rest) :=
      ⟨List.nodup_cons.mpr ⟨hmem, hchosen.nodup⟩,
        List.forall_mem_cons.mpr ⟨by decide, hchosen.subset⟩⟩
    obtain ⟨row, hrow, hdescribed⟩ := row_of_order hmode hsize hwhole hlong horder
    exact ⟨row, 3 :: rest, hrow, ⟨hwhole, fun _ => hlong.symm,
      fun h => absurd (htwice.mp h) hmem, fun h => absurd h hdenotes⟩, hdescribed⟩

/-- Whatever the permutation, an encoding that does not count too many registers is
decoded to a row. -/
theorem exists_places (hcount : encoding.field 10 3 ≤ 6) :
    ∃ row registers, decode space encoding start = .ok (.row row) ∧
      Places encoding registers ∧ FramelessRow registers size row := by
  by_cases hdenotes : Denotes encoding
  · exact places_of_denotes hmode hsize hdenotes
  · cases hk : encoding.field 10 3 with
    | zero => exact places_of_none hmode hsize hk hdenotes
    | succ k =>
      rw [hk] at hcount
      exact places_of_beyond hmode hsize hk hcount hdenotes

end Rows

theorem count_le_of_pushes {saves : List (Register × Rule)} (h : pushes encoding = .ok saves) :
    encoding.field 10 3 ≤ 6 := by
  by_contra hcount
  unfold pushes at h
  dsimp only at h
  rw [if_pos (Nat.lt_of_not_le hcount)] at h
  cases h

/-- An encoding without a frame pointer is decoded to a row as soon as the count and the
size allow it, whether or not its permutation is the code of an order. The row is that
of the order, if there is one. Each place belongs to a register of its own unless the
first register is named twice, and then one place belongs to none. -/
theorem decode_arranged_iff (hmode : encoding.mode = 2 ∨ encoding.mode = 3) :
    ((∃ row, decode space encoding start = .ok (.row row)) ↔
      encoding.field 10 3 ≤ 6 ∧ ∃ size, Sized space encoding start size) ∧
    ∀ row, decode space encoding start = .ok (.row row) →
      ∃ size, Sized space encoding start size ∧
        (∀ registers, Frameless space encoding start registers size →
          FramelessRow registers size row) ∧
        (Arranged encoding size row ↔ ¬ NamesTwice encoding) ∧
        (NamesTwice encoding → ¬ Denotes encoding ∧
          ∃ registers, Chooses preserved registers ∧ registers.length + 1 = encoding.field 10 3 ∧
            FramelessRow registers size row) := by
  have hinverse : ∀ row, decode space encoding start = .ok (.row row) →
      encoding.field 10 3 ≤ 6 ∧ ∃ size, Sized space encoding start size := by
    intro row hrow
    obtain ⟨size, row', hsize, hconstant, -⟩ := (decode_eq_ok hmode).mp hrow
    obtain ⟨saves, hpushes, -⟩ := constantSize_eq_ok.mp hconstant
    exact ⟨count_le_of_pushes hpushes, size, hsize⟩
  refine ⟨⟨fun ⟨row, hrow⟩ => hinverse row hrow, fun ⟨hcount, size, hsize⟩ => ?_⟩, ?_⟩
  · obtain ⟨row, -, hrow, -⟩ := exists_places hmode hsize hcount
    exact ⟨row, hrow⟩
  · intro row hrow
    obtain ⟨hcount, size, hsize⟩ := hinverse row hrow
    obtain ⟨row', registers, hrow', hplaces, hdescribed⟩ := exists_places hmode hsize hcount
    rw [hrow] at hrow'
    cases hrow'
    refine ⟨size, hsize, fun named hnamed => ?_, ⟨?_, fun hwhole => ?_⟩, fun htwice => ?_⟩
    · obtain ⟨row', hset, hdescribed'⟩ := exists_framelessRow hnamed.chosen size
      rw [decode_eq hnamed hset] at hrow
      cases hrow
      exact hdescribed'
    · rintro ⟨arranged, hchosen, hlength, harranged⟩ htwice
      have hsame := harranged.length_eq hchosen hplaces.chosen hdescribed
      have hshort := hplaces.short htwice
      omega
    · exact ⟨registers, hplaces.chosen, hplaces.count hwhole, hdescribed⟩
    · exact ⟨fun hdenotes => hdenotes.not_namesTwice htwice, registers, hplaces.chosen,
        hplaces.short htwice, hdescribed⟩

theorem decode_arranged_iff_pushed :
    CompactEncoding.mode ⟨0x03076c10⟩ = 3 ∧
      ∃ row, decode pushedMemory.space ⟨0x03076c10⟩ 0x401000 = .ok (.row row) ∧
        Frameless pushedMemory.space ⟨0x03076c10⟩ 0x401000 [3, 6, 12] 64 ∧
        ∃ size, Arranged ⟨0x03076c10⟩ size row := by
  have hmode : CompactEncoding.mode ⟨0x03076c10⟩ = 3 := by decide
  have hreserved : pushedMemory.space.get32 0x401007 = .ok 0x28 := by decide +kernel
  have hsized : Sized pushedMemory.space ⟨0x03076c10⟩ 0x401000 64 :=
    .inr ⟨hmode, 0x28, hreserved, by decide⟩
  have hdenotes : Denotes ⟨0x03076c10⟩ := denotes_iff.mpr (by decide)
  obtain ⟨hdecoded, hrows⟩ :=
    @decode_arranged_iff pushedMemory.space ⟨0x03076c10⟩ 0x401000 (.inr hmode)
  obtain ⟨row, hrow⟩ := hdecoded.mpr ⟨by decide, 64, hsized⟩
  obtain ⟨size, -, -, harranged, -⟩ := hrows row hrow
  exact ⟨hmode, row, hrow, ⟨⟨by decide, by decide⟩, by decide, by decide, hsized⟩, size,
    harranged.mpr hdenotes.not_namesTwice⟩

/-- A row in which one register has a place, above a place of none. -/
def shortRow : Row :=
  { bareRow 32 with
    rules := ((Vector.replicate Row.capacity .unused).set 16 (.inCfa (-8))).set 3 (.inCfa (-16)) }

/-- Two registers are counted, but register 3 is taken for the first of them and named
as the second, so that nothing is restored from the lower place. -/
theorem decode_unarranged :
    decode (Snapshot.mk .little []).space ⟨0x0204081e⟩ 0 = .ok (.row shortRow) ∧
      ¬ Denotes ⟨0x0204081e⟩ ∧ ∀ size, ¬ Arranged ⟨0x0204081e⟩ size shortRow := by
  refine ⟨by decide +kernel, ?_, ?_⟩
  · rw [denotes_iff]
    decide
  · rintro size ⟨registers, hchosen, hlength, harranged⟩
    have hsaved : ∀ r ∈ preserved, shortRow.rule r ≠ .unused → r = 3 := by decide +kernel
    have honly : registers ⊆ [3] := fun r hr => List.mem_singleton.mpr
      (hsaved r (hchosen.subset r hr) ((harranged.mem_iff hchosen).mp hr).2)
    have hle := (List.subperm_of_subset hchosen.nodup honly).length_le
    rw [hlength] at hle
    exact absurd hle (by decide)

end Unwinding.Compact.X64
