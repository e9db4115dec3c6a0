import Unwinding.Proofs.Lookup.Agreement
import Unwinding.Proofs.Reading.Failure

/-!
# The course of a scan

A scan passes the entries of the section in their order until one of them decides what it
answers: a frame entry that covers the address, an entry that cannot be read, or the end.
Each entry ends behind the place where it begins, so that the section has no more entries
than bytes, and the bound on the number of rounds never ends a scan.
-/

namespace Unwinding

namespace EntryHead

variable {space : AddressSpace} {span span' : Span} {address length : Word}

theorem sized_ne_terminator {place : Word} :
    sized address length space span ≠ .error (.terminator place) span' := by
  intro h
  rw [sized, Reading.pos_bind] at h
  by_cases hwrap : UInt64.size ≤ span.pos.toNat + length.toNat
  · rw [if_pos hwrap] at h
    rcases Reading.bind_eq_error.mp h with h | ⟨_, _, h, -⟩ <;> simp at h
  · rw [if_neg hwrap] at h
    rcases Reading.bind_eq_error.mp h with h | ⟨_, _, -, h⟩ <;> simp at h

theorem read_eq_terminator {place : Word} :
    read space address = .error (.terminator place) ↔
      place = address ∧ address.toNat + 4 ≤ lastAddress.toNat ∧ space.get32 address = .ok 0 := by
  rw [read, Reading.result_eq_error, reading_eq]
  simp only [Reading.pos_bind]
  constructor
  · rintro ⟨span', h⟩
    rcases Reading.bind_eq_error.mp h with hshort | ⟨short, middle, hshort, h⟩
    · simp at hshort
    obtain ⟨hroom, hshort, -⟩ := (Reading.taken_eq_ok 4).mp (Reading.liftM_eq_ok.mp hshort)
    by_cases hzero : short = 0
    · rw [if_pos hzero, Reading.throw_eq_error, CfiError.terminator.injEq] at h
      exact ⟨h.1.symm, hroom, hzero ▸ hshort⟩
    · rw [if_neg hzero] at h
      by_cases hlong : short = 0xffffffff
      · rw [if_pos hlong] at h
        rcases Reading.bind_eq_error.mp h with hlength | ⟨length, last, -, h⟩
        · simp at hlength
        · exact absurd h sized_ne_terminator
      · rw [if_neg hlong] at h
        exact absurd h sized_ne_terminator
  · rintro ⟨rfl, hroom, hshort⟩
    have hread : Reading.u32 space (.unbounded place) = .ok 0 _ :=
      (Reading.taken_eq_ok 4).mpr ⟨hroom, hshort, rfl⟩
    rw [Reading.bind_of_ok (Reading.liftM_eq_ok.mpr hread)]
    exact ⟨_, rfl⟩

end EntryHead

namespace FrameSection

variable {space : AddressSpace} {bases : Bases} {pc stop address next : Word}
  {heads : List EntryHead} {result : Except CfiError (Option FrameEntry)}

/-- A scan for `pc` goes on behind a common entry, and behind a frame entry that decodes and
does not cover `pc`. -/
def Passed (space : AddressSpace) (bases : Bases) (pc : Word) (head : EntryHead) : Prop :=
  head.id ≠ 0 → ∃ entry common,
    FrameEntry.decode space bases head.address = .ok (entry, common) ∧ entry.covers pc = false

/-- From `address` on, the entries that a scan passes on its way to `next`. -/
inductive Passes (space : AddressSpace) (bases : Bases) (pc stop : Word) :
    (address : Word) → List EntryHead → (next : Word) → Prop
  | start (address : Word) : Passes space bases pc stop address [] address
  | step {address next : Word} {head : EntryHead} {heads : List EntryHead} :
      address < stop → EntryHead.read space address = .ok head → Passed space bases pc head →
      Passes space bases pc stop head.stop heads next →
      Passes space bases pc stop address (head :: heads) next

/-- The entry at `address` cannot be read. -/
inductive Fails (space : AddressSpace) (bases : Bases) (address : Word) : CfiError → Prop
  | head {error : CfiError} : EntryHead.read space address = .error error →
      (∀ place, error ≠ .terminator place) → Fails space bases address error
  | frame {head : EntryHead} {error : CfiError} : EntryHead.read space address = .ok head →
      head.id ≠ 0 → FrameEntry.decode space bases address = .error error →
      Fails space bases address error

/-- The entry at `address` is a frame entry that covers `pc`. -/
def Covers (space : AddressSpace) (bases : Bases) (pc address : Word) (entry : FrameEntry) : Prop :=
  ∃ common, FrameEntry.decode space bases address = .ok (entry, common) ∧ entry.covers pc = true

/-- What a scan answers that has come to `address`. -/
inductive Decides (space : AddressSpace) (bases : Bases) (pc stop address : Word) :
    Except CfiError (Option FrameEntry) → Prop
  | stop : stop ≤ address → Decides space bases pc stop address (.ok none)
  | terminator : EntryHead.read space address = .error (.terminator address) →
      Decides space bases pc stop address (.ok none)
  | failed {error : CfiError} : address < stop → Fails space bases address error →
      Decides space bases pc stop address (.error error)
  | found {entry : FrameEntry} : address < stop → Covers space bases pc address entry →
      Decides space bases pc stop address (.ok (some entry))

section Course

theorem Passes.scanWithin_eq (h : Passes space bases pc stop address heads next) {left : Nat}
    (hleft : stop.toNat - address.toNat ≤ left) :
    ∃ rest, stop.toNat - next.toNat ≤ rest ∧
      scanWithin space bases pc stop left address = scanWithin space bases pc stop rest next := by
  induction h generalizing left with
  | start => exact ⟨left, hleft, rfl⟩
  | @step address next head heads hstop hhead hpassed _ ih =>
    obtain ⟨left, rfl⟩ := exists_left hstop hleft
    obtain ⟨rest, hrest, heq⟩ := ih (left_of_stop hhead hstop hleft)
    refine ⟨rest, hrest, ?_⟩
    rw [← heq]
    by_cases hid : head.id = 0
    · exact scanWithin_common pc left hstop hhead hid
    · obtain ⟨entry, common, hdecode, hcovers⟩ := hpassed hid
      rw [(EntryHead.read_ok hhead).1] at hdecode
      rw [scanWithin_frame pc left hstop hhead hid hdecode, if_neg (by simp [hcovers])]

theorem Decides.scanWithin_eq (h : Decides space bases pc stop address result) {left : Nat}
    (hleft : stop.toNat - address.toNat ≤ left) :
    scanWithin space bases pc stop left address = result := by
  cases h with
  | stop hstop => exact scanWithin_stop hstop pc left
  | terminator hhead =>
    by_cases hstop : stop ≤ address
    · exact scanWithin_stop hstop pc left
    · obtain ⟨left, rfl⟩ := exists_left (UInt64.not_le.mp hstop) hleft
      rw [scanWithin, if_neg hstop, hhead]
  | @failed error hstop hfails =>
    obtain ⟨left, rfl⟩ := exists_left hstop hleft
    rw [scanWithin, if_neg (UInt64.not_le.mpr hstop)]
    cases hfails with
    | head hhead hplace =>
      rw [hhead]
      cases error with
      | terminator place => exact absurd rfl (hplace place)
      | _ => rfl
    | frame hhead hid hdecode =>
      rw [hhead]
      simp only [hid, ne_eq, not_false_iff, if_true, hdecode]
      rfl
  | found hstop hcovers =>
    obtain ⟨left, rfl⟩ := exists_left hstop hleft
    obtain ⟨common, hdecode, hcovers⟩ := hcovers
    obtain ⟨head, hhead, hid, -⟩ := FrameEntry.decode_eq_ok.mp hdecode
    rw [scanWithin_frame pc left hstop hhead hid hdecode, if_pos hcovers]

theorem exists_course_step {head : EntryHead} (hstop : address < stop)
    (hhead : EntryHead.read space address = .ok head) :
    Passed space bases pc head ∨ ∃ result, Decides space bases pc stop address result := by
  have hplace := (EntryHead.read_ok hhead).1
  by_cases hid : head.id = 0
  · exact .inl fun h => absurd hid h
  · cases hdecode : FrameEntry.decode space bases address with
    | error error => exact .inr ⟨_, .failed hstop (.frame hhead hid hdecode)⟩
    | ok decoded =>
      cases hcovers : decoded.1.covers pc with
      | true => exact .inr ⟨_, .found hstop ⟨decoded.2, hdecode, hcovers⟩⟩
      | false => exact .inl fun _ => ⟨decoded.1, decoded.2, hplace ▸ hdecode, hcovers⟩

theorem exists_course (space : AddressSpace) (bases : Bases) (pc stop address : Word) :
    ∃ heads next result, Passes space bases pc stop address heads next ∧
      Decides space bases pc stop next result := by
  obtain ⟨left, hleft⟩ : ∃ left, stop.toNat - address.toNat ≤ left := ⟨_, Nat.le_refl _⟩
  induction left generalizing address with
  | zero =>
    have hstop : stop ≤ address := by
      rw [UInt64.le_iff_toNat_le]
      omega
    exact ⟨[], address, _, .start address, .stop hstop⟩
  | succ left ih =>
    by_cases hstop : address < stop
    · cases hhead : EntryHead.read space address with
      | error error =>
        by_cases hplace : ∃ place, error = .terminator place
        · obtain ⟨place, rfl⟩ := hplace
          obtain ⟨rfl, -⟩ := EntryHead.read_eq_terminator.mp hhead
          exact ⟨[], _, _, .start _, .terminator hhead⟩
        · have hfails : Fails space bases address error :=
            .head hhead fun place h => hplace ⟨place, h⟩
          exact ⟨[], address, _, .start address, .failed hstop hfails⟩
      | ok head =>
        rcases exists_course_step hstop hhead with hpassed | ⟨result, hdecides⟩
        · obtain ⟨heads, next, result, hpasses, hdecides⟩ :=
            ih head.stop (left_of_stop hhead hstop hleft)
          exact ⟨_, next, result, .step hstop hhead hpassed hpasses, hdecides⟩
        · exact ⟨[], address, result, .start address, hdecides⟩
    · exact ⟨[], address, _, .start address, .stop (UInt64.not_lt.mp hstop)⟩

theorem scanWithin_eq_iff {left : Nat} (hleft : stop.toNat - address.toNat ≤ left) :
    scanWithin space bases pc stop left address = result ↔
      ∃ heads next, Passes space bases pc stop address heads next ∧
        Decides space bases pc stop next result := by
  have heq {heads : List EntryHead} {next : Word} {result : Except CfiError (Option FrameEntry)}
      (hpasses : Passes space bases pc stop address heads next)
      (hdecides : Decides space bases pc stop next result) :
      scanWithin space bases pc stop left address = result := by
    obtain ⟨rest, hrest, hscan⟩ := hpasses.scanWithin_eq hleft
    rw [hscan, hdecides.scanWithin_eq hrest]
  constructor
  · intro h
    obtain ⟨heads, next, result', hpasses, hdecides⟩ := exists_course space bases pc stop address
    rw [← h, heq hpasses hdecides]
    exact ⟨heads, next, hpasses, hdecides⟩
  · rintro ⟨heads, next, hpasses, hdecides⟩
    exact heq hpasses hdecides

end Course

section Ascent

theorem Passes.le (h : Passes space bases pc stop address heads next) : address ≤ next := by
  induction h with
  | start => exact UInt64.le_refl _
  | step _ hhead _ _ ih =>
    exact UInt64.le_trans (UInt64.le_of_lt (EntryHead.read_ok hhead).2) ih

theorem Passes.ascending (h : Passes space bases pc stop address heads next) :
    (heads.map (·.address) ++ [next]).Pairwise (· < ·) ∧
      ∀ head ∈ heads, address ≤ head.address ∧ head.address < stop := by
  induction h with
  | start => simp
  | @step address next head heads hstop hhead hpassed hpasses ih =>
    obtain ⟨hplace, hfurther⟩ := EntryHead.read_ok hhead
    constructor
    · rw [List.map_cons, List.cons_append, List.pairwise_cons, hplace]
      refine ⟨fun place hmem => ?_, ih.1⟩
      rcases List.mem_append.mp hmem with hmem | hmem
      · obtain ⟨head', hmem', rfl⟩ := List.mem_map.mp hmem
        exact UInt64.lt_of_lt_of_le hfurther (ih.2 head' hmem').1
      · rw [List.mem_singleton.mp hmem]
        exact UInt64.lt_of_lt_of_le hfurther hpasses.le
    · intro head' hmem
      rcases List.mem_cons.mp hmem with rfl | hmem
      · rw [hplace]
        exact ⟨UInt64.le_refl _, hstop⟩
      · have hbehind := ih.2 head' hmem
        exact ⟨UInt64.le_trans (UInt64.le_of_lt hfurther) hbehind.1, hbehind.2⟩

theorem Passes.length_le (h : Passes space bases pc stop address heads next) :
    heads.length ≤ stop.toNat - address.toNat := by
  induction h with
  | start => simp
  | @step address next head heads hstop hhead hpassed hpasses ih =>
    have hfurther := (EntryHead.read_ok hhead).2
    rw [UInt64.lt_iff_toNat_lt] at hstop hfurther
    simp only [List.length_cons]
    omega

end Ascent

section Rounds

/-- The scan that has come to `address`. -/
def scanFrom (space : AddressSpace) (bases : Bases) (pc stop address : Word) :
    Except CfiError (Option FrameEntry) :=
  scanWithin space bases pc stop (stop.toNat - address.toNat) address

/-- One round of the loop, which goes on with the next entry. -/
def round (space : AddressSpace) (bases : Bases) (pc stop : Word)
    (goOn : Word → Except CfiError (Option FrameEntry)) (address : Word) :
    Except CfiError (Option FrameEntry) :=
  if stop ≤ address then .ok none
  else
    match EntryHead.read space address with
    | .error (.terminator _) => .ok none
    | .error error => .error error
    | .ok head => do
      if head.id ≠ 0 then
        let (entry, _) ← FrameEntry.decode space bases address
        if entry.covers pc then return some entry
      goOn head.stop

theorem round_congr {goOn goOn' : Word → Except CfiError (Option FrameEntry)}
    (h : ∀ head, address < stop → EntryHead.read space address = .ok head →
      goOn head.stop = goOn' head.stop) :
    round space bases pc stop goOn address = round space bases pc stop goOn' address := by
  unfold round
  by_cases hstop : stop ≤ address
  · rw [if_pos hstop, if_pos hstop]
  · rw [if_neg hstop, if_neg hstop]
    cases hhead : EntryHead.read space address with
    | error error => cases error <;> rfl
    | ok head =>
      dsimp only
      rw [h head (UInt64.not_le.mp hstop) hhead]

theorem scanWithin_enough {left : Nat} (hleft : stop.toNat - address.toNat ≤ left) :
    scanWithin space bases pc stop left address = scanFrom space bases pc stop address :=
  (scanWithin_eq_iff hleft).mpr ((scanWithin_eq_iff (Nat.le_refl _)).mp rfl)

/-- A scan goes round as long as entries are passed; the bound on its rounds plays no part. -/
theorem scanFrom_eq (space : AddressSpace) (bases : Bases) (pc stop address : Word) :
    scanFrom space bases pc stop address =
      round space bases pc stop (scanFrom space bases pc stop) address := by
  by_cases hstop : stop ≤ address
  · rw [scanFrom, scanWithin_stop hstop, round, if_pos hstop]
  · have hsucc : ∃ left, stop.toNat - address.toNat = left + 1 := by
      rw [UInt64.le_iff_toNat_le] at hstop
      exact ⟨stop.toNat - address.toNat - 1, by omega⟩
    obtain ⟨left, hleft⟩ := hsucc
    rw [scanFrom, hleft]
    change round space bases pc stop (scanWithin space bases pc stop left) address = _
    apply round_congr
    intro head hlt hhead
    exact scanWithin_enough (left_of_stop hhead hlt (Nat.le_of_eq hleft))

end Rounds

/-- What a scan of the section at `start` does, whatever the memory holds. -/
structure Scanned (space : AddressSpace) (bases : Bases) (start : Word) (length : Option Word)
    (pc : Word) : Prop where
  /-- The end is that of the section, and not taken modulo the size of the memory. -/
  stop : (stopOf start length).toNat =
    match length with
    | some length => start.toNat + length.toNat
    | none => UInt64.size - 1
  rounds : scan space bases start length pc = scanFrom space bases pc (stopOf start length) start ∧
    ∀ address, scanFrom space bases pc (stopOf start length) address =
      round space bases pc (stopOf start length)
        (scanFrom space bases pc (stopOf start length)) address
  ascending : ∀ heads next, Passes space bases pc (stopOf start length) start heads next →
    (heads.map (·.address) ++ [next]).Pairwise (· < ·) ∧
      ∀ head ∈ heads, start ≤ head.address ∧ head.address < stopOf start length
  length_le : ∀ heads next, Passes space bases pc (stopOf start length) start heads next →
    heads.length ≤ (stopOf start length).toNat - start.toNat
  found : ∀ entry, scan space bases start length pc = .ok (some entry) ↔
    ∃ heads next, Passes space bases pc (stopOf start length) start heads next ∧
      next < stopOf start length ∧ Covers space bases pc next entry
  failed : ∀ error, scan space bases start length pc = .error error ↔
    ∃ heads next, Passes space bases pc (stopOf start length) start heads next ∧
      next < stopOf start length ∧ Fails space bases next error
  nothing : scan space bases start length pc = .ok none ↔
    ∃ heads next, Passes space bases pc (stopOf start length) start heads next ∧
      (stopOf start length ≤ next ∨
        next.toNat + 4 ≤ lastAddress.toNat ∧ space.get32 next = .ok 0)

theorem scan_eq_iff {start : Word} {length : Option Word} :
    scan space bases start length pc = result ↔
      ∃ heads next, Passes space bases pc (stopOf start length) start heads next ∧
        Decides space bases pc (stopOf start length) next result := by
  cases length with
  | none => exact scanWithin_eq_iff (Nat.le_refl _)
  | some length => exact scanWithin_eq_iff (Nat.le_refl _)

theorem decides_found_iff {entry : FrameEntry} :
    Decides space bases pc stop address (.ok (some entry)) ↔
      address < stop ∧ Covers space bases pc address entry := by
  constructor
  · intro h
    cases h with
    | found hstop hcovers => exact ⟨hstop, hcovers⟩
  · exact fun h => .found h.1 h.2

theorem decides_failed_iff {error : CfiError} :
    Decides space bases pc stop address (.error error) ↔
      address < stop ∧ Fails space bases address error := by
  constructor
  · intro h
    cases h with
    | failed hstop hfails => exact ⟨hstop, hfails⟩
  · exact fun h => .failed h.1 h.2

theorem decides_nothing_iff :
    Decides space bases pc stop address (.ok none) ↔
      stop ≤ address ∨ address.toNat + 4 ≤ lastAddress.toNat ∧ space.get32 address = .ok 0 := by
  constructor
  · intro h
    cases h with
    | stop hstop => exact .inl hstop
    | terminator hhead => exact .inr (EntryHead.read_eq_terminator.mp hhead).2
  · intro h
    rcases h with hstop | hzero
    · exact .stop hstop
    · exact .terminator (EntryHead.read_eq_terminator.mpr ⟨rfl, hzero⟩)

/-- A scan answers with the first frame entry that covers the address, or with the first
entry that cannot be read, whichever comes first, or with nothing if the section ends. -/
theorem scan_course (space : AddressSpace) (bases : Bases) (start : Word) (length : Option Word)
    (pc : Word) (hlength : ∀ count, length = some count →
      start.toNat + count.toNat < UInt64.size) :
    Scanned space bases start length pc where
  stop := by
    cases length with
    | none => rfl
    | some count => exact (UInt64.toNat_add _ _).trans (Nat.mod_eq_of_lt (hlength count rfl))
  rounds := by
    refine ⟨?_, scanFrom_eq space bases pc (stopOf start length)⟩
    cases length <;> rfl
  ascending heads next h := h.ascending
  length_le heads next h := h.length_le
  found entry := by simp only [scan_eq_iff, decides_found_iff]
  failed error := by simp only [scan_eq_iff, decides_failed_iff]
  nothing := by simp only [scan_eq_iff, decides_nothing_iff]

/-- The scan passes a common entry and two frame entries, and ends at the third. -/
theorem scan_course_threeFunctions :
    (∀ count, some (0x58 : Word) = some count →
      (0x3000 : Word).toNat + count.toNat < UInt64.size) ∧
    Scanned LookupTable.threeMemory.space .unknown 0x3000 (some 0x58) 0x1150 ∧
    scan LookupTable.threeMemory.space .unknown 0x3000 (some 0x58) 0x1150 =
      .ok (some LookupTable.threeEntries[2]) := by
  have hlength : ∀ count, some (0x58 : Word) = some count →
      (0x3000 : Word).toNat + count.toNat < UInt64.size := by
    rintro count ⟨⟩
    decide
  exact ⟨hlength, scan_course _ _ _ _ _ hlength, by decide +kernel⟩

end FrameSection

end Unwinding
