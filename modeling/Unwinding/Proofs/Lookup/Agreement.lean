import Mathlib.Data.List.Pairwise
import Unwinding.Lookup.Scan
import Unwinding.Lookup.Table
import Unwinding.Memory.Snapshot
import Unwinding.Proofs.CallFrame.Decoding
import Unwinding.Proofs.Lookup.Search

/-!
# The table finds what the scan finds

A scan reads a section entry by entry, and the first frame entry that covers
the address is its answer. A table lists the frame entries by the place where
their functions start, and a search in it ends at the last function that does
not start behind the address. If the functions do not overlap, only this one
can cover the address, so that both ways lead to the same entry, or to none.
-/

namespace Unwinding

namespace FrameSection

variable {space : AddressSpace} {bases : Bases} {stop address : Word} {entries : List FrameEntry}

/-- From `address` on, the section up to `stop` or up to a terminator is made
of entries that decode, and these are its frame entries. -/
inductive Holds (space : AddressSpace) (bases : Bases) (stop : Word) :
    (address : Word) → List FrameEntry → Prop
  | stop {address : Word} : stop ≤ address → Holds space bases stop address []
  | terminator {address : Word} : EntryHead.read space address = .error (.terminator address) →
      Holds space bases stop address []
  | common {address : Word} {head : EntryHead} {common : CommonEntry} {entries : List FrameEntry} :
      address < stop → EntryHead.read space address = .ok head →
      CommonEntry.decode space bases address = .ok common →
      Holds space bases stop head.stop entries → Holds space bases stop address entries
  | frame {address : Word} {head : EntryHead} {entry : FrameEntry} {common : CommonEntry}
      {entries : List FrameEntry} :
      address < stop → EntryHead.read space address = .ok head →
      FrameEntry.decode space bases address = .ok (entry, common) →
      Holds space bases stop head.stop entries → Holds space bases stop address (entry :: entries)

theorem Holds.decode (h : Holds space bases stop address entries) {entry : FrameEntry}
    (hentry : entry ∈ entries) :
    ∃ common, FrameEntry.decode space bases entry.address = .ok (entry, common) := by
  induction h with
  | stop => cases hentry
  | terminator => cases hentry
  | common _ _ _ _ ih => exact ih hentry
  | frame _ _ hdecode _ ih =>
    rcases List.mem_cons.mp hentry with rfl | hentry
    · rw [FrameEntry.address_of_decode hdecode]
      exact ⟨_, hdecode⟩
    · exact ih hentry

theorem scanWithin_stop (hstop : stop ≤ address) (pc : Word) (left : Nat) :
    scanWithin space bases pc stop left address = .ok none := by
  cases left with
  | zero => rfl
  | succ left => rw [scanWithin, if_pos hstop]

theorem scanWithin_common (pc : Word) (left : Nat) (hstop : address < stop) {head : EntryHead}
    (hhead : EntryHead.read space address = .ok head) (hid : head.id = 0) :
    scanWithin space bases pc stop (left + 1) address =
      scanWithin space bases pc stop left head.stop := by
  rw [scanWithin, if_neg (UInt64.not_le.mpr hstop), hhead]
  simp only [hid, ne_eq, not_true, if_false]

theorem scanWithin_frame (pc : Word) (left : Nat) (hstop : address < stop) {head : EntryHead}
    (hhead : EntryHead.read space address = .ok head) (hid : head.id ≠ 0) {entry : FrameEntry}
    {common : CommonEntry} (hdecode : FrameEntry.decode space bases address = .ok (entry, common)) :
    scanWithin space bases pc stop (left + 1) address =
      if entry.covers pc then .ok (some entry)
      else scanWithin space bases pc stop left head.stop := by
  rw [scanWithin, if_neg (UInt64.not_le.mpr hstop), hhead]
  simp only [hid, ne_eq, not_false_iff, if_true, hdecode]
  rfl

theorem exists_left (hstop : address < stop) {left : Nat}
    (hleft : stop.toNat - address.toNat ≤ left) : ∃ rest, left = rest + 1 := by
  rw [UInt64.lt_iff_toNat_lt] at hstop
  exact ⟨left - 1, by omega⟩

theorem left_of_stop {head : EntryHead} (hhead : EntryHead.read space address = .ok head)
    (hstop : address < stop) {left : Nat} (hleft : stop.toNat - address.toNat ≤ left + 1) :
    stop.toNat - head.stop.toNat ≤ left := by
  have hfurther := (EntryHead.read_ok hhead).2
  rw [UInt64.lt_iff_toNat_lt] at hstop hfurther
  omega

/-- Every step of a scan leaves less of the section, so it ends where the
section does unless an entry covers the address. -/
theorem scanWithin_eq (h : Holds space bases stop address entries) (pc : Word) {left : Nat}
    (hleft : stop.toNat - address.toNat ≤ left) :
    scanWithin space bases pc stop left address = .ok (entries.find? (·.covers pc)) := by
  induction h generalizing left with
  | stop hstop => exact scanWithin_stop hstop pc left
  | @terminator address hhead =>
    by_cases hstop : stop ≤ address
    · exact scanWithin_stop hstop pc left
    · cases left with
      | zero => rfl
      | succ left =>
        rw [scanWithin, if_neg hstop, hhead]
        rfl
  | @common address head common entries hstop hhead hdecode _ ih =>
    obtain ⟨_, hhead', hid, -⟩ := CommonEntry.decode_eq_ok.mp hdecode
    cases hhead.symm.trans hhead'
    obtain ⟨left, rfl⟩ := exists_left hstop hleft
    rw [scanWithin_common pc left hstop hhead hid]
    exact ih (left_of_stop hhead hstop hleft)
  | @frame address head entry common entries hstop hhead hdecode _ ih =>
    obtain ⟨_, hhead', hid, -⟩ := FrameEntry.decode_eq_ok.mp hdecode
    cases hhead.symm.trans hhead'
    obtain ⟨left, rfl⟩ := exists_left hstop hleft
    rw [scanWithin_frame pc left hstop hhead hid hdecode, List.find?_cons]
    cases entry.covers pc with
    | true => rfl
    | false => exact ih (left_of_stop hhead hstop hleft)

/-- Where a section of a given length, or of an unknown one, is left. -/
def stopOf (start : Word) (length : Option Word) : Word :=
  match length with
  | some length => start + length
  | none => lastAddress

theorem scan_eq {start : Word} {length : Option Word}
    (h : Holds space bases (stopOf start length) start entries) (pc : Word) :
    scan space bases start length pc = .ok (entries.find? (·.covers pc)) := by
  cases length with
  | none => exact scanWithin_eq h pc (Nat.le_refl _)
  | some length => exact scanWithin_eq h pc (Nat.le_refl _)

def Disjoint (entry entry' : FrameEntry) : Prop :=
  entry.pcEnd ≤ entry'.pcStart ∨ entry'.pcEnd ≤ entry.pcStart

instance (entry entry' : FrameEntry) : Decidable (Disjoint entry entry') :=
  inferInstanceAs (Decidable (_ ∨ _))

instance : Std.Symm Disjoint := ⟨fun _ _ h => h.symm⟩

/-- No function is empty or runs over the last address, and no two overlap. -/
structure Apart (entries : List FrameEntry) : Prop where
  proper : ∀ entry ∈ entries, entry.pcStart < entry.pcEnd
  disjoint : entries.Pairwise Disjoint

/-- An entry that covers the address is the one that starts last before it. -/
theorem Apart.eq_of_covers (h : Apart entries) {entry entry' : FrameEntry}
    (hentry : entry ∈ entries) (hentry' : entry' ∈ entries) {pc : Word}
    (hpc : entry.pcStart ≤ pc) (hlast : entry'.pcStart ≤ pc → entry'.pcStart ≤ entry.pcStart)
    (hcovers : entry'.covers pc = true) : entry' = entry := by
  obtain ⟨hstart, hend⟩ := FrameEntry.covers_iff.mp hcovers
  have hlast := hlast hstart
  have hproper := h.proper entry hentry
  by_contra hne
  rcases h.disjoint.forall hentry' hentry hne with hbefore | hbehind
  · -- the other function would end before this one starts
    exact absurd (UInt64.le_trans hbefore hpc) (UInt64.not_le.mpr hend)
  · have hempty := UInt64.le_trans hbehind hlast
    exact absurd hempty (UInt64.not_le.mpr hproper)

theorem find?_of_unique {entry : FrameEntry} (hentry : entry ∈ entries) {pc : Word}
    (unique : ∀ entry' ∈ entries, entry'.covers pc = true → entry' = entry) :
    entries.find? (·.covers pc) = if entry.covers pc then some entry else none := by
  cases hfound : entries.find? (·.covers pc) with
  | none =>
    have hcovers := List.find?_eq_none.mp hfound entry hentry
    rw [if_neg hcovers]
  | some entry' =>
    have hcovers := List.find?_some hfound
    have hsame := unique entry' (List.mem_of_find?_eq_some hfound) hcovers
    rw [← hsame, if_pos hcovers]

end FrameSection

namespace LookupTable

variable {table : LookupTable} {space : AddressSpace} {rows : List (Word × Word)}

/-- The rows of a table that can be searched, each with a start and the address
of an entry. -/
structure Lists (table : LookupTable) (space : AddressSpace) (rows : List (Word × Word)) :
    Prop where
  count : rows.length = table.count.toNat
  entries : ∃ size, table.valueSize = .ok size ∧
    ∀ i (h : i < rows.length), table.entry space size i = .ok rows[i]

/-- What a search answers, told from the rows: the entry of the last one that
does not start behind the address. -/
def Answers (rows : List (Word × Word)) (pc : Word) : Option Word → Prop
  | none => ∀ row ∈ rows, pc < row.1
  | some entry => ∃ row ∈ rows, row.2 = entry ∧ row.1 ≤ pc ∧
      ∀ row' ∈ rows, row'.1 ≤ pc → row'.1 ≤ row.1

theorem search_of_no_rows (hcount : table.count = 0) (pc : Word) :
    table.search space pc = .ok none := by
  unfold search
  rw [if_pos hcount]
  rfl

theorem search_eq (hcount : table.count ≠ 0) {size : Nat} (hsize : table.valueSize = .ok size)
    (pc : Word) :
    table.search space pc =
      (Search.narrow (fun index => Prod.fst <$> table.entry space size index) pc 0
        table.count.toNat >>= fun index => table.entry space size index >>= fun row =>
          if pc < row.1 then .ok none else .ok (some row.2)) := by
  unfold search
  rw [if_neg hcount, hsize]
  rfl

theorem start_le_of_le (sorted : rows.Pairwise (·.1 ≤ ·.1)) {i j : Nat} (hi : i < rows.length)
    (hj : j < rows.length) (hij : i ≤ j) : rows[i].1 ≤ rows[j].1 := by
  rcases Nat.lt_or_eq_of_le hij with hlt | rfl
  · exact List.pairwise_iff_getElem.mp sorted i j hi hj hlt
  · exact UInt64.le_refl _

/-- The place where a search in ascending rows ends decides what it answers. -/
theorem answers_of_index (sorted : rows.Pairwise (·.1 ≤ ·.1)) {pc : Word} {index : Nat}
    (hlength : index < rows.length) (hkey : index = 0 ∨ rows[index].1 ≤ pc)
    (hnext : ∀ h : index + 1 < rows.length, pc < rows[index + 1].1) :
    Answers rows pc (if pc < rows[index].1 then none else some rows[index].2) := by
  by_cases hbefore : pc < rows[index].1
  · rw [if_pos hbefore]
    have hzero : index = 0 := hkey.resolve_right (UInt64.not_le.mpr hbefore)
    intro row hrow
    obtain ⟨j, hj, rfl⟩ := List.mem_iff_getElem.mp hrow
    exact UInt64.lt_of_lt_of_le hbefore (start_le_of_le sorted hlength hj (by omega))
  · rw [if_neg hbefore]
    refine ⟨rows[index], List.getElem_mem hlength, rfl, UInt64.not_lt.mp hbefore, ?_⟩
    intro row hrow hpc
    obtain ⟨j, hj, rfl⟩ := List.mem_iff_getElem.mp hrow
    by_cases hle : j ≤ index
    · exact start_le_of_le sorted hj hlength hle
    · have hlast : index + 1 < rows.length := by omega
      have hbehind := start_le_of_le sorted hlast hj (by omega)
      exact absurd (UInt64.le_trans hbehind hpc) (UInt64.not_le.mpr (hnext hlast))

theorem search_ok (h : table.Lists space rows) (sorted : rows.Pairwise (·.1 ≤ ·.1)) (pc : Word) :
    ∃ found, table.search space pc = .ok found ∧ Answers rows pc found := by
  obtain ⟨size, hsize, hentries⟩ := h.entries
  by_cases hcount : table.count = 0
  · have hrows : rows = [] := by
      rw [← List.length_eq_zero_iff, h.count, hcount]
      rfl
    refine ⟨none, search_of_no_rows hcount pc, ?_⟩
    intro row hrow
    rw [hrows] at hrow
    cases hrow
  · have hpos : 0 < table.count.toNat := by
      have hne : table.count.toNat ≠ 0 := fun hzero => hcount (UInt64.toNat_inj.mp hzero)
      omega
    let keys (i : Nat) : Word := if h : i < rows.length then rows[i].1 else 0
    have hstart : ∀ i, ∀ hi : i < rows.length, keys i = rows[i].1 := fun i hi => dif_pos hi
    have hkeys : ∀ i, 0 ≤ i → i < 0 + table.count.toNat →
        Prod.fst <$> table.entry space size i = .ok (keys i) := by
      intro i _ hi
      have hi : i < rows.length := by rw [h.count]; omega
      rw [hentries i hi, hstart i hi]
      rfl
    obtain ⟨index, hindex, -, hhigh, hkey, hnext⟩ :=
      Search.narrow_ok pc 0 hpos hkeys
    have hlength : index < rows.length := by rw [h.count]; omega
    rw [hstart index hlength] at hkey
    refine ⟨_, ?_, answers_of_index sorted hlength hkey ?_⟩
    · rw [search_eq hcount hsize, hindex]
      change (table.entry space size index >>= _) = _
      rw [hentries index hlength]
      by_cases hbefore : pc < rows[index].1
      · rw [if_pos hbefore]
        exact if_pos hbefore
      · rw [if_neg hbefore]
        exact if_neg hbefore
    · intro hlast
      rw [← hstart (index + 1) hlast]
      have hmore : ¬ index + 1 = 0 + table.count.toNat := by rw [h.count] at hlast; omega
      exact UInt64.not_le.mp (hnext.resolve_left hmore)

/-- The table has one row for each of the entries, in the order of their
functions. -/
structure Indexes (table : LookupTable) (space : AddressSpace) (rows : List (Word × Word))
    (entries : List FrameEntry) : Prop where
  lists : table.Lists space rows
  perm : rows.Perm (entries.map fun entry => (entry.pcStart, entry.address))
  ascending : rows.Pairwise (·.1 ≤ ·.1)

theorem find_eq_scan {bases : Bases} {start : Word} {length : Option Word}
    {entries : List FrameEntry} (holds : FrameSection.Holds space bases
      (FrameSection.stopOf start length) start entries)
    (apart : FrameSection.Apart entries) (indexes : table.Indexes space rows entries) (pc : Word) :
    table.find space bases pc = .ok (entries.find? (·.covers pc)) ∧
      FrameSection.scan space bases start length pc = .ok (entries.find? (·.covers pc)) := by
  refine ⟨?_, FrameSection.scan_eq holds pc⟩
  obtain ⟨found, hsearch, hanswers⟩ := search_ok indexes.lists indexes.ascending pc
  have hrow : ∀ entry ∈ entries, (entry.pcStart, entry.address) ∈ rows := fun entry hentry =>
    indexes.perm.mem_iff.mpr (List.mem_map_of_mem hentry)
  unfold find
  rw [hsearch]
  cases found with
  | none =>
    have hnone : entries.find? (·.covers pc) = none := by
      refine List.find?_eq_none.mpr fun entry hentry hcovers => ?_
      have hbefore := hanswers _ (hrow entry hentry)
      exact absurd (FrameEntry.covers_iff.mp hcovers).1 (UInt64.not_le.mpr hbefore)
    rw [hnone]
    rfl
  | some address =>
    obtain ⟨row, hmem, rfl, hpc, hlast⟩ := hanswers
    obtain ⟨entry, hentry, rfl⟩ := List.mem_map.mp (indexes.perm.mem_iff.mp hmem)
    obtain ⟨common, hdecode⟩ := holds.decode hentry
    have hunique := FrameSection.find?_of_unique hentry fun entry' hentry' hcovers =>
      apart.eq_of_covers hentry hentry' hpc (fun hstart => hlast _ (hrow entry' hentry') hstart)
        hcovers
    rw [hunique]
    change (FrameEntry.decode space bases entry.address >>= _) = _
    rw [hdecode]
    rfl

/-- A section with three functions that are not in the order of their
addresses, with a gap between two of them, and a table for it. -/
def threeMemory : Snapshot where
  endian := .little
  regions := [
    ⟨0x3000, [0x14, 0, 0, 0, 0, 0, 0, 0, 1, 0x7a, 0x52, 0, 1, 0x78, 0x10, 1, 0x1b, 0x0c, 7, 8,
      0x90, 1, 0, 0, 0x10, 0, 0, 0, 0x1c, 0, 0, 0, 0xe0, 0xef, 0xff, 0xff, 0x40, 0, 0, 0, 0, 0,
      0, 0, 0x10, 0, 0, 0, 0x30, 0, 0, 0, 0xcc, 0xdf, 0xff, 0xff, 0, 1, 0, 0, 0, 0, 0, 0, 0x10,
      0, 0, 0, 0x44, 0, 0, 0, 0xb8, 0xe0, 0xff, 0xff, 0x80, 0, 0, 0, 0, 0, 0, 0, 0, 0, 0, 0]⟩,
    ⟨0x5000, [1, 0x1b, 3, 0x3b, 0xfc, 0xdf, 0xff, 0xff, 3, 0, 0, 0, 0, 0xc0, 0xff, 0xff, 0x2c,
      0xe0, 0xff, 0xff, 0, 0xc1, 0xff, 0xff, 0x40, 0xe0, 0xff, 0xff, 0, 0xd0, 0xff, 0xff, 0x18,
      0xe0, 0xff, 0xff]⟩]

def threeTable : LookupTable := ⟨0x5000, 0x3000, 3, ⟨0x3b⟩, 0x500c⟩

def threeRows : List (Word × Word) := [(0x1000, 0x302c), (0x1100, 0x3040), (0x2000, 0x3018)]

def threeCommon : CommonEntry where
  address := 0x3000
  length := 0x18
  version := 1
  codeFactor := 1
  dataFactor := -8
  returnAddress := 16
  instructions := ⟨0x3011, 0x3018⟩
  pointerEncoding := ⟨0x1b⟩
  lsdaEncoding := .absent
  personality := none
  hasAugmentation := true
  isSignalFrame := false
  signedWithBKey := false
  taggedMemory := false

def threeEntries : List FrameEntry := [
  ⟨0x3018, 0x14, 0x3000, 0x2000, 0x2040, none, ⟨0x3029, 0x302c⟩⟩,
  ⟨0x302c, 0x14, 0x3000, 0x1000, 0x1100, none, ⟨0x303d, 0x3040⟩⟩,
  ⟨0x3040, 0x14, 0x3000, 0x1100, 0x1180, none, ⟨0x3051, 0x3054⟩⟩]

theorem threeEntries_holds :
    FrameSection.Holds threeMemory.space .unknown (FrameSection.stopOf 0x3000 none) 0x3000
      threeEntries := by
  have hcommon : EntryHead.read threeMemory.space 0x3000 = .ok ⟨0x3000, 0x3004, 0, 0x3018⟩ ∧
      CommonEntry.decode threeMemory.space .unknown 0x3000 = .ok threeCommon := by decide +kernel
  have hfirst : EntryHead.read threeMemory.space 0x3018 = .ok ⟨0x3018, 0x301c, 0x1c, 0x302c⟩ ∧
      FrameEntry.decode threeMemory.space .unknown 0x3018 = .ok (threeEntries[0], threeCommon) := by
    decide +kernel
  have hsecond : EntryHead.read threeMemory.space 0x302c = .ok ⟨0x302c, 0x3030, 0x30, 0x3040⟩ ∧
      FrameEntry.decode threeMemory.space .unknown 0x302c = .ok (threeEntries[1], threeCommon) := by
    decide +kernel
  have hthird : EntryHead.read threeMemory.space 0x3040 = .ok ⟨0x3040, 0x3044, 0x44, 0x3054⟩ ∧
      FrameEntry.decode threeMemory.space .unknown 0x3040 = .ok (threeEntries[2], threeCommon) := by
    decide +kernel
  have hend : EntryHead.read threeMemory.space 0x3054 = .error (.terminator 0x3054) := by
    decide +kernel
  refine .common (by decide) hcommon.1 hcommon.2 ?_
  refine .frame (by decide) hfirst.1 hfirst.2 ?_
  refine .frame (by decide) hsecond.1 hsecond.2 ?_
  exact .frame (by decide) hthird.1 hthird.2 (.terminator hend)

theorem threeRows_index : threeTable.Indexes threeMemory.space threeRows threeEntries := by
  have hrows : ∀ i : Fin 3, threeTable.entry threeMemory.space 4 i = .ok threeRows[i] := by
    decide +kernel
  refine ⟨⟨by decide, 4, by decide, fun i hi => hrows ⟨i, hi⟩⟩, ?_, by decide⟩
  decide

/-- In the gap behind the second of the functions, both ways find nothing. -/
theorem find_eq_scan_threeFunctions :
    LookupTable.read threeMemory.space 0x5000 = .ok threeTable ∧
      FrameSection.Holds threeMemory.space .unknown (FrameSection.stopOf 0x3000 none) 0x3000
        threeEntries ∧
      FrameSection.Apart threeEntries ∧
      threeTable.Indexes threeMemory.space threeRows threeEntries ∧
      ∀ pc, threeTable.find threeMemory.space .unknown pc =
          .ok (threeEntries.find? (·.covers pc)) ∧
        FrameSection.scan threeMemory.space .unknown 0x3000 none pc =
          .ok (threeEntries.find? (·.covers pc)) := by
  have hread : LookupTable.read threeMemory.space 0x5000 = .ok threeTable := by decide +kernel
  have hapart : FrameSection.Apart threeEntries := ⟨by decide, by decide⟩
  exact ⟨hread, threeEntries_holds, hapart, threeRows_index,
    find_eq_scan threeEntries_holds hapart threeRows_index⟩

end LookupTable

end Unwinding
