import Mathlib.Data.List.Find
import Unwinding.Memory.Snapshot
import Unwinding.Proofs.Compact.Found
import Unwinding.Proofs.Compact.Listing

/-!
# The index finds what its list of functions has

Written out one page after another, a listing is a list of entries, and the one
that covers an address is found by going through it. The index finds it with a
search over the pages and another one over the functions of a page. In a listing
whose pages and functions ascend, both searches end at the only place where an
entry can cover the address, whichever kind the page is of.
-/

namespace Unwinding.CompactIndex

/-- The functions of a page ascend within its range, and those that say they have
language data have theirs in the slice of the page. -/
structure Page.WellFormed (page : Page) (next : PageRow) : Prop where
  ascending : page.functions.Pairwise (·.offset < ·.offset)
  within : ∀ listed ∈ page.functions, page.row.first ≤ listed.offset ∧ listed.offset < next.first
  slice : next.lsdas.toNat = page.row.lsdas.toNat + page.lsdas.length * 8
  lsdasAscending : page.lsdas.Pairwise (·.1 < ·.1)
  lsdas : ∀ listed ∈ page.functions, listed.encoding.hasLsda = true →
    ∃ place, (listed.offset, place) ∈ page.lsdas

structure Listing.WellFormed (listing : Listing) (index : CompactIndex) (space : AddressSpace) :
    Prop where
  ascending : listing.rows.Pairwise (·.first < ·.first)
  pages : ∀ bounded ∈ listing.bounded, bounded.1.WellFormed bounded.2
  /-- Numbers of personalities are those of slots that hold an address. -/
  personalities : ∀ page ∈ listing.pages, ∀ listed ∈ page.functions,
    listed.encoding.personality ≠ 0 →
      ∃ offset routine, listing.personalities[listed.encoding.personality - 1]? = some offset ∧
        space.pointer (index.imageBase + offset.toUInt64) = .ok routine
  /-- The functions do not run over the last address. -/
  fits : index.imageBase.toNat + listing.sentinel.first.toNat < UInt64.size

/-- The functions of all pages, each with its page. -/
def Listing.functions (listing : Listing) : List (Page × Function) :=
  listing.bounded.flatMap fun (page, next) => (spread next.first page.functions).map (page, ·)

section Entries

variable (listing : Listing) (index : CompactIndex) (space : AddressSpace)

/-- The address in the slot of personality number `n`. -/
def Listing.personalityOf (n : Nat) : Option Word :=
  if n = 0 then none
  else listing.personalities[n - 1]?.bind fun offset =>
    (space.pointer (index.imageBase + offset.toUInt64)).toOption

def Page.lsdaOf (page : Page) (function : Function) : Option Word :=
  if function.encoding.hasLsda then
    (page.lsdas.lookup function.first).map (index.imageBase + ·.toUInt64)
  else none

def Listing.entryOf (page : Page) (function : Function) : CompactEntry where
  startIp := index.imageBase + function.first.toUInt64
  endIp := index.imageBase + function.stop.toUInt64
  encoding := function.encoding
  personality := listing.personalityOf index space function.encoding.personality
  lsda := page.lsdaOf index function

/-- The list that the two levels stand for. -/
def Listing.entries : List CompactEntry :=
  listing.functions.map fun (page, function) => listing.entryOf index space page function

end Entries

variable {index : CompactIndex} {space : AddressSpace} {listing : Listing} {page : Page}
  {next : PageRow} {target : UInt32}

theorem length_rows : listing.rows.length = listing.pages.length + 1 := by
  simp [Listing.rows]

theorem getElem_rows {n : Nat} (h : n < listing.pages.length) (h' : n < listing.rows.length) :
    listing.rows[n] = listing.pages[n].row := by
  simp [Listing.rows, h]

theorem bounded_eq_some {n : Nat} :
    listing.bounded[n]? = some (page, next) ↔
      listing.pages[n]? = some page ∧ listing.rows[n + 1]? = some next := by
  unfold Listing.bounded
  rw [List.getElem?_zip_eq_some, List.getElem?_tail]

theorem mem_functions {member : Page × Function} :
    member ∈ listing.functions ↔
      ∃ (n : Nat) (next : PageRow) (i : Nat), listing.bounded[n]? = some (member.1, next) ∧
        (spread next.first member.1.functions)[i]? = some member.2 := by
  unfold Listing.functions
  rw [List.mem_flatMap]
  constructor
  · rintro ⟨⟨page, next⟩, hbounded, hmember⟩
    obtain ⟨function, hfunction, rfl⟩ := List.mem_map.mp hmember
    obtain ⟨n, hn⟩ := List.getElem?_of_mem hbounded
    obtain ⟨i, hi⟩ := List.getElem?_of_mem hfunction
    exact ⟨n, next, i, hn, hi⟩
  · rintro ⟨n, next, i, hn, hi⟩
    exact ⟨_, List.mem_of_getElem? hn, List.mem_map.mpr ⟨_, List.mem_of_getElem? hi, rfl⟩⟩

theorem length_functions (hstored : page.Stored index space listing.encodings) :
    (UInt16.ofNat page.functions.length).toNat = page.functions.length :=
  UInt16.toNat_ofNat_of_lt' hstored.count.1

theorem page_address : (page.row.entry index).page = index.addressOf page.row.page.toNat :=
  address_add_offset _

section Page

variable (h : page.WellFormed next)

include h

theorem Page.WellFormed.bounds {i : Nat} {function : Function}
    (hfunction : (spread next.first page.functions)[i]? = some function) :
    page.row.first ≤ function.first ∧ function.first < function.stop ∧
      function.stop ≤ next.first := by
  obtain ⟨hi, -⟩ := List.getElem?_eq_some_iff.mp hfunction
  rw [length_spread] at hi
  rw [getElem?_spread _ hi] at hfunction
  cases hfunction
  obtain ⟨hfirst, hnext⟩ := h.within _ (List.getElem_mem hi)
  refine ⟨hfirst, ?_⟩
  by_cases hlast : i + 1 < page.functions.length
  · rw [List.getElem?_eq_getElem hlast]
    exact ⟨List.pairwise_iff_getElem.mp h.ascending i (i + 1) hi hlast (Nat.lt_succ_self i),
      UInt32.le_of_lt (h.within _ (List.getElem_mem hlast)).2⟩
  · rw [List.getElem?_eq_none (Nat.le_of_not_lt hlast)]
    exact ⟨hnext, UInt32.le_refl _⟩

theorem Page.WellFormed.place_of_held {i : Nat} {function : Function}
    (hfunction : (spread next.first page.functions)[i]? = some function)
    (hfirst : function.first ≤ target) (hstop : target < function.stop) :
    Search.LastUpTo page.functions (·.offset) target (some i) := by
  obtain ⟨hi, -⟩ := List.getElem?_eq_some_iff.mp hfunction
  rw [length_spread] at hi
  rw [getElem?_spread _ hi] at hfunction
  cases hfunction
  refine ⟨hi, hfirst, fun j hj hij => UInt32.lt_of_lt_of_le hstop ?_⟩
  have hlast : i + 1 < page.functions.length := Nat.lt_of_le_of_lt hij hj
  rw [List.getElem?_eq_getElem hlast]
  exact Search.offset_le_of_le h.ascending hlast hj hij

theorem lsda_eq (hfits : index.Fits) {common : List CompactEncoding}
    (hstored : page.Stored index space common) {first place : UInt32}
    (hmem : (first, place) ∈ page.lsdas) :
    index.lsda space (page.row.entry index) (next.entry index) first =
      .ok (index.imageBase + place.toUInt64) := by
  obtain ⟨m, hm, hat⟩ := List.mem_iff_getElem.mp hmem
  have hplaces : (page.row.entry index).lsdas = index.addressOf page.row.lsdas.toNat :=
    address_add_offset _
  have hroom : page.row.lsdas.toNat + page.lsdas.length * 8 ≤ index.length.toNat := by
    have hlast := (hstored.lsdas (page.lsdas.length - 1) (by omega)).2.1
    omega
  have hcount : (UInt32.ofNat (((next.entry index).lsdas.toNat -
      (page.row.entry index).lsdas.toNat) / 8)).toNat = page.lsdas.length := by
    have hends : (next.entry index).lsdas = index.addressOf next.lsdas.toNat :=
      address_add_offset _
    rw [hends, hplaces, h.slice, toNat_addressOf hfits hroom, toNat_addressOf hfits (by omega),
      Nat.add_sub_add_left, Nat.add_sub_cancel_left, Nat.mul_div_cancel _ (by decide)]
    have hsize := next.lsdas.toNat_lt
    rw [h.slice] at hsize
    exact UInt32.toNat_ofNat_of_lt' (by rw [show UInt32.size = 2 ^ 32 from rfl]; omega)
  have hkeys : ∀ i, ∀ hi : i < page.lsdas.length,
      CompactError.load32 space (element (page.row.entry index).lsdas 8 i) =
        .ok page.lsdas[i].1 := by
    intro i hi
    rw [hplaces, element_addressOf]
    exact (hstored.lsdas i hi).1.load
  obtain ⟨found, hfound, hlast⟩ := Search.lastAtOrBefore_ok h.lsdasAscending hkeys first
  have hsame : found = some m := by
    refine Search.LastUpTo.unique hlast ⟨hm, ?_, fun j hj hmj => ?_⟩
    · rw [hat]
      exact UInt32.le_refl _
    · have hlater := List.pairwise_iff_getElem.mp h.lsdasAscending m j hm hj hmj
      rw [hat] at hlater
      exact hlater
  subst hsame
  refine Outcome.bind_eq_ok.mpr ⟨some m, ?_, ?_⟩
  · rw [hcount]
    exact hfound
  · have hfirst : (CompactError.load32 space
        (element (page.row.entry index).lsdas 8 m)).toOption = some first := by
      rw [hkeys m hm, hat]
      rfl
    refine (if_pos hfirst).trans (Outcome.bind_eq_ok.mpr ⟨place, ?_, rfl⟩)
    have hplace := (hstored.lsdas m hm).2.load
    rw [hat] at hplace
    rw [hplaces, element_addressOf]
    change CompactError.load32 space (index.addressOf _ + UInt64.ofNat 4) = _
    rw [addressOf_add]
    exact hplace

theorem lsda_of_listed (hfits : index.Fits) {common : List CompactEncoding}
    (hstored : page.Stored index space common) {i : Nat} {function : Function}
    (hfunction : (spread next.first page.functions)[i]? = some function)
    (hlsda : function.encoding.hasLsda = true) :
    ∃ address, index.lsda space (page.row.entry index) (next.entry index) function.first =
      .ok address ∧ page.lsdaOf index function = some address := by
  obtain ⟨hi, -⟩ := List.getElem?_eq_some_iff.mp hfunction
  rw [length_spread] at hi
  rw [getElem?_spread _ hi] at hfunction
  cases hfunction
  obtain ⟨place, hplace⟩ := h.lsdas _ (List.getElem_mem hi) hlsda
  refine ⟨_, lsda_eq h hfits hstored hplace, ?_⟩
  have hlookup : page.lsdas.lookup page.functions[i].offset = some place := by
    obtain ⟨before, behind, hsplit⟩ := List.append_of_mem hplace
    refine List.lookup_eq_some_iff.mpr ⟨before, behind, hsplit, fun other hother => ?_⟩
    have hascending := h.lsdasAscending
    rw [hsplit] at hascending
    have hlt := (List.pairwise_append.mp hascending).2.2 other hother _ List.mem_cons_self
    exact bne_iff_ne.mpr (UInt32.ne_of_lt hlt).symm
  unfold Page.lsdaOf
  rw [if_pos hlsda, hlookup]
  rfl

theorem regularPage_ok (hfits : index.Fits) (hstored : page.Stored index space listing.encodings)
    (hkind : page.kind = .regular) (target : UInt32) :
    ∃ place, Search.LastUpTo page.functions (·.offset) target place ∧
      (pageReading (listing.header index) (page.row.entry index) (next.entry index) target).result
          space (.unbounded (page.row.entry index).page) =
        .ok (place.bind fun i => (spread next.first page.functions)[i]?) := by
  have hlimit := hfits.le_lastAddress
  have hlength := length_functions hstored
  obtain ⟨hplace, ⟨-, hcount⟩, hfunctions, -⟩ := hstored
  unfold Page.FunctionsStored at hfunctions
  rw [hkind] at hfunctions
  obtain ⟨hword, hfunctions⟩ := hfunctions
  have hentries : (page.row.entry index).page + page.place.toUInt64 =
      index.addressOf (page.row.page.toNat + page.place.toNat) := by
    rw [page_address, addressOf_add_offset]
  have hsearch : ∃ place, Search.LastUpTo page.functions (·.offset) target place ∧
      regular space ((page.row.entry index).page + page.place.toUInt64) page.functions.length
        target next.first = .ok (place.bind fun i => (spread next.first page.functions)[i]?) := by
    refine regular_ok h.ascending fun i hi => ?_
    rw [hentries, element_addressOf]
    exact ⟨(hfunctions i hi).1.load, addressOf_add _ 4 ▸ (hfunctions i hi).2.load⟩
  obtain ⟨place, hlast, hregular⟩ := hsearch
  refine ⟨place, hlast, Reading.result_eq_ok.mpr
    ⟨⟨index.addressOf (page.row.page.toNat + 8), lastAddress⟩, ?_⟩⟩
  rw [Span.unbounded, page_address]
  refine Reading.bind_eq_ok.mpr ⟨_, _, hword.lift hfits hlimit, ?_⟩
  refine Reading.bind_eq_ok.mpr ⟨_, _, hplace.lift hfits hlimit, ?_⟩
  refine Reading.bind_eq_ok.mpr ⟨_, _, hcount.lift hfits hlimit, ?_⟩
  refine Reading.fetch_eq_ok.mpr ⟨?_, rfl⟩
  rw [hlength]
  exact hregular

theorem compressedPage_ok (hlisting : listing.Stored index space)
    (hstored : page.Stored index space listing.encodings) {place : UInt16}
    {encodings : List CompactEncoding} (hkind : page.kind = .compressed place encodings)
    (htarget : page.row.first ≤ target) :
    ∃ place, Search.LastUpTo page.functions (·.offset) target place ∧
      (pageReading (listing.header index) (page.row.entry index) (next.entry index) target).result
          space (.unbounded (page.row.entry index).page) =
        .ok (place.bind fun i => (spread next.first page.functions)[i]?) := by
  have hfits := hlisting.fits
  have hlimit := hfits.le_lastAddress
  have hlength := length_functions hstored
  obtain ⟨hplace, ⟨-, hcount⟩, hfunctions, -⟩ := hstored
  unfold Page.FunctionsStored at hfunctions
  rw [hkind] at hfunctions
  obtain ⟨hword, hown, ⟨hownSize, hownCount⟩, hencodings, hfunctions⟩ := hfunctions
  have hownLength : (UInt16.ofNat encodings.length).toNat = encodings.length :=
    UInt16.toNat_ofNat_of_lt' hownSize
  have hentries : (page.row.entry index).page + page.place.toUInt64 =
      index.addressOf (page.row.page.toNat + page.place.toNat) := by
    rw [page_address, addressOf_add_offset]
  have hownEncodings : (page.row.entry index).page + place.toUInt64 =
      index.addressOf (page.row.page.toNat + place.toNat) := by
    rw [page_address, addressOf_add_offset]
  have hcommon : (listing.header index).encodings =
      index.addressOf listing.encodingsAt.toNat := address_add_offset _
  have hsearch : ∃ found, Search.LastUpTo page.functions (·.offset) target found ∧
      compressed space (listing.header index) ((page.row.entry index).page + page.place.toUInt64)
        page.functions.length ((page.row.entry index).page + place.toUInt64) encodings.length
        page.row.first target next.first =
          .ok (found.bind fun i => (spread next.first page.functions)[i]?) := by
    refine compressed_ok h.ascending (fun listed hlisted => (h.within listed hlisted).1) htarget
      (UInt32.toNat_ofNat_of_lt' hlisting.encodingCount.1) (fun i hi => ?_) (fun i hi => ?_)
      fun i hi => ?_
    · rw [hcommon, element_addressOf]
      exact (hlisting.encodings i hi).load
    · rw [hownEncodings, element_addressOf]
      exact (hencodings i hi).load
    · obtain ⟨number, hnumber, hencoding, hdistance, hpacked⟩ := hfunctions i hi
      rw [hentries, element_addressOf]
      exact ⟨number, hnumber, hencoding, hdistance, hpacked.load⟩
  obtain ⟨found, hlast, hcompressed⟩ := hsearch
  refine ⟨found, hlast, Reading.result_eq_ok.mpr
    ⟨⟨index.addressOf (page.row.page.toNat + 12), lastAddress⟩, ?_⟩⟩
  rw [Span.unbounded, page_address]
  refine Reading.bind_eq_ok.mpr ⟨_, _, hword.lift hfits hlimit, ?_⟩
  refine Reading.bind_eq_ok.mpr ⟨_, _, hplace.lift hfits hlimit, ?_⟩
  refine Reading.bind_eq_ok.mpr ⟨_, _, hcount.lift hfits hlimit, ?_⟩
  refine Reading.bind_eq_ok.mpr ⟨_, _, hown.lift hfits hlimit, ?_⟩
  refine Reading.bind_eq_ok.mpr ⟨_, _, hownCount.lift hfits hlimit, ?_⟩
  refine Reading.fetch_eq_ok.mpr ⟨?_, rfl⟩
  rw [hlength, hownLength]
  exact hcompressed

/-- On a page of either kind the search ends at the last function up to the
target, and describes it with its end. -/
theorem page_ok (hlisting : listing.Stored index space)
    (hstored : page.Stored index space listing.encodings) (htarget : page.row.first ≤ target) :
    ∃ place, Search.LastUpTo page.functions (·.offset) target place ∧
      (pageReading (listing.header index) (page.row.entry index) (next.entry index) target).result
          space (.unbounded (page.row.entry index).page) =
        .ok (place.bind fun i => (spread next.first page.functions)[i]?) := by
  cases hkind : page.kind with
  | regular => exact regularPage_ok h hlisting.fits hstored hkind target
  | compressed place encodings => exact compressedPage_ok h hlisting hstored hkind htarget

end Page

theorem personality_eq (hlisting : listing.Stored index space) {n : Nat}
    (hslot : n ≠ 0 → ∃ offset routine, listing.personalities[n - 1]? = some offset ∧
      space.pointer (index.imageBase + offset.toUInt64) = .ok routine) :
    index.personality space (listing.header index) n =
      .ok (listing.personalityOf index space n) := by
  unfold personality Listing.personalityOf
  by_cases hzero : n = 0
  · rw [if_pos hzero, if_pos hzero]
    rfl
  · obtain ⟨offset, routine, hoffset, hroutine⟩ := hslot hzero
    obtain ⟨hn, hat⟩ := List.getElem?_eq_some_iff.mp hoffset
    have hcount : (listing.header index).personalityCount.toNat = listing.personalities.length :=
      UInt32.toNat_ofNat_of_lt' hlisting.personalityCount.1
    have hload := (hlisting.personalities (n - 1) hn).load
    rw [hat, ← element_addressOf, ← address_add_offset] at hload
    rw [if_neg hzero, if_neg hzero, hcount, if_neg (by omega), hoffset, Option.bind_some, hroutine]
    refine Outcome.bind_eq_ok.mpr ⟨offset, hload, ?_⟩
    exact Outcome.fmap_eq_ok.mpr ⟨routine, Outcome.mapError_eq_ok.mpr hroutine, rfl⟩

theorem covers_entryOf {function : Function} {pc : Word}
    (hfits : index.imageBase.toNat + function.stop.toNat < UInt64.size)
    (hproper : function.first < function.stop) :
    ((listing.entryOf index space page function).startIp ≤ pc ∧
        pc < (listing.entryOf index space page function).endIp) ↔
      ∃ target, index.target pc = some target ∧
        function.first ≤ target ∧ target < function.stop := by
  rw [UInt32.lt_iff_toNat_lt] at hproper
  have hstart : (index.imageBase + function.first.toUInt64).toNat =
      index.imageBase.toNat + function.first.toNat := by
    rw [UInt64.toNat_add, UInt32.toNat_toUInt64]
    exact Nat.mod_eq_of_lt (Nat.lt_of_le_of_lt (by omega) hfits)
  have hend : (index.imageBase + function.stop.toUInt64).toNat =
      index.imageBase.toNat + function.stop.toNat := by
    rw [UInt64.toNat_add, UInt32.toNat_toUInt64]
    exact Nat.mod_eq_of_lt hfits
  change (index.imageBase + function.first.toUInt64 ≤ pc ∧
    pc < index.imageBase + function.stop.toUInt64) ↔ _
  rw [UInt64.le_iff_toNat_le, UInt64.lt_iff_toNat_lt, hstart, hend]
  constructor
  · rintro ⟨hfirst, hstop⟩
    have hsize := function.stop.toNat_lt
    have hreach : pc.toNat - index.imageBase.toNat < UInt32.size := by
      rw [show UInt32.size = 2 ^ 32 from rfl]
      omega
    have htarget : (UInt32.ofNat (pc.toNat - index.imageBase.toNat)).toNat =
        pc.toNat - index.imageBase.toNat := UInt32.toNat_ofNat_of_lt' hreach
    have hbase : index.imageBase ≤ pc := by
      rw [UInt64.le_iff_toNat_le]
      omega
    refine ⟨UInt32.ofNat (pc.toNat - index.imageBase.toNat), if_pos ⟨hbase, hreach⟩, ?_, ?_⟩
    · rw [UInt32.le_iff_toNat_le, htarget]
      omega
    · rw [UInt32.lt_iff_toNat_lt, htarget]
      omega
  · rintro ⟨target, htarget, hfirst, hstop⟩
    obtain ⟨-, hpc⟩ := target_eq_some htarget
    rw [UInt32.le_iff_toNat_le] at hfirst
    rw [UInt32.lt_iff_toNat_lt] at hstop
    omega

def Function.holds (function : Function) (target : UInt32) : Bool :=
  decide (function.first ≤ target ∧ target < function.stop)

theorem Function.holds_iff {function : Function} :
    function.holds target = true ↔ function.first ≤ target ∧ target < function.stop :=
  decide_eq_true_iff

theorem Function.not_holds_iff {function : Function} :
    ¬ function.holds target = true ↔ target < function.first ∨ function.stop ≤ target := by
  rw [Function.holds_iff, not_and_or, UInt32.not_le, UInt32.not_lt]

section WellFormed

variable (h : listing.WellFormed index space)

include h

theorem Listing.WellFormed.of_bounded {n : Nat}
    (hbounded : listing.bounded[n]? = some (page, next)) :
    page.WellFormed next :=
  h.pages _ (List.mem_of_getElem? hbounded)

theorem Listing.WellFormed.le_sentinel {n : Nat} (hn : n < listing.rows.length) :
    listing.rows[n].first ≤ listing.sentinel.first := by
  have hlast : listing.rows.length - 1 < listing.rows.length := by omega
  have hsentinel : listing.rows[listing.rows.length - 1] = listing.sentinel := by
    simp [Listing.rows]
  rw [← hsentinel]
  exact Search.offset_le_of_le h.ascending hn hlast (by omega)

theorem Listing.WellFormed.stop_fits {n i : Nat} {function : Function}
    (hbounded : listing.bounded[n]? = some (page, next))
    (hfunction : (spread next.first page.functions)[i]? = some function) :
    index.imageBase.toNat + function.stop.toNat < UInt64.size := by
  obtain ⟨hnext, rfl⟩ := List.getElem?_eq_some_iff.mp (bounded_eq_some.mp hbounded).2
  obtain ⟨-, -, hto⟩ := (h.of_bounded hbounded).bounds hfunction
  have hlast := UInt32.le_iff_toNat_le.mp (UInt32.le_trans hto (h.le_sentinel hnext))
  have hfits := h.fits
  omega

theorem Listing.WellFormed.held {n i : Nat} {function : Function}
    (hbounded : listing.bounded[n]? = some (page, next))
    (hfunction : (spread next.first page.functions)[i]? = some function)
    (hfirst : function.first ≤ target) (hstop : target < function.stop) :
    target < next.first ∧ Search.LastUpTo listing.pages (·.row.first) target (some n) := by
  obtain ⟨hpage, hrow⟩ := bounded_eq_some.mp hbounded
  obtain ⟨hn, rfl⟩ := List.getElem?_eq_some_iff.mp hpage
  obtain ⟨hnext, rfl⟩ := List.getElem?_eq_some_iff.mp hrow
  obtain ⟨hfrom, -, hto⟩ := (h.of_bounded hbounded).bounds hfunction
  refine ⟨UInt32.lt_of_lt_of_le hstop hto, hn, UInt32.le_trans hfrom hfirst, ?_⟩
  intro j hj hnj
  have hjRow : j < listing.rows.length := by rw [length_rows]; omega
  change target < listing.pages[j].row.first
  rw [← getElem_rows hj hjRow]
  exact UInt32.lt_of_lt_of_le (UInt32.lt_of_lt_of_le hstop hto)
    (Search.offset_le_of_le h.ascending hnext hjRow hnj)

theorem find?_entries (pc : Word) :
    ((listing.entries index space).find? fun entry =>
        decide (entry.startIp ≤ pc ∧ pc < entry.endIp)) =
      (index.target pc).bind fun target =>
        (listing.functions.find? (·.2.holds target)).map fun member =>
          listing.entryOf index space member.1 member.2 := by
  have hcovers : ∀ member ∈ listing.functions,
      ((listing.entryOf index space member.1 member.2).startIp ≤ pc ∧
          pc < (listing.entryOf index space member.1 member.2).endIp) ↔
        ∃ target, index.target pc = some target ∧ member.2.holds target = true := by
    intro member hmember
    obtain ⟨n, next, i, hbounded, hfunction⟩ := mem_functions.mp hmember
    rw [covers_entryOf (h.stop_fits hbounded hfunction)
      ((h.of_bounded hbounded).bounds hfunction).2.1]
    exact exists_congr fun target => and_congr_right fun _ => Function.holds_iff.symm
  unfold Listing.entries
  rw [List.find?_map]
  cases htarget : index.target pc with
  | none =>
    have hnone : listing.functions.find? ((fun entry : CompactEntry =>
        decide (entry.startIp ≤ pc ∧ pc < entry.endIp)) ∘
          fun member => listing.entryOf index space member.1 member.2) = none := by
      refine List.find?_eq_none.mpr fun member hmember hfound => ?_
      obtain ⟨target, hsome, -⟩ := (hcovers member hmember).mp (of_decide_eq_true hfound)
      cases htarget.symm.trans hsome
    rw [hnone]
    rfl
  | some target =>
    rw [Option.bind_some]
    refine congrArg _ (List.find?_congr fun member hmember => ?_)
    rw [Bool.eq_iff_iff]
    refine decide_eq_true_iff.trans ((hcovers member hmember).trans ⟨?_, ?_⟩)
    · rintro ⟨target', hsome, hholds⟩
      cases htarget.symm.trans hsome
      exact hholds
    · exact fun hholds => ⟨target, htarget, hholds⟩

theorem Listing.WellFormed.place_of_member {n : Nat} {member : Page × Function}
    (hbounded : listing.bounded[n]? = some (page, next))
    (hpages : Search.LastUpTo listing.pages (·.row.first) target (some n)) {place : Option Nat}
    (hplace : Search.LastUpTo page.functions (·.offset) target place)
    (hmember : member ∈ listing.functions) (hholds : member.2.holds target = true) :
    member.1 = page ∧ target < next.first ∧
      (place.bind fun i => (spread next.first page.functions)[i]?) = some member.2 := by
  obtain ⟨hfirst, hstop⟩ := Function.holds_iff.mp hholds
  obtain ⟨n', next', i, hbounded', hfunction⟩ := mem_functions.mp hmember
  obtain ⟨hbefore, hpages'⟩ := h.held hbounded' hfunction hfirst hstop
  cases Search.LastUpTo.unique hpages hpages'
  obtain ⟨hsame, rfl⟩ := Prod.mk.inj (Option.some.inj (hbounded.symm.trans hbounded'))
  rw [hsame] at hplace ⊢
  cases Search.LastUpTo.unique hplace
    ((h.of_bounded hbounded').place_of_held hfunction hfirst hstop)
  exact ⟨rfl, hbefore, hfunction⟩

/-- The function at the places where both searches end is the one that holds the
target, or none does. -/
theorem Listing.WellFormed.find?_functions {n : Nat}
    (hbounded : listing.bounded[n]? = some (page, next))
    (hpages : Search.LastUpTo listing.pages (·.row.first) target (some n)) {place : Option Nat}
    (hplace : Search.LastUpTo page.functions (·.offset) target place) :
    listing.functions.find? (·.2.holds target) =
      ((place.bind fun i => (spread next.first page.functions)[i]?).filter
        (·.holds target)).map (page, ·) := by
  cases hfound : listing.functions.find? (·.2.holds target) with
  | none =>
    have hnone := List.find?_eq_none.mp hfound
    cases hat : (place.bind fun i => (spread next.first page.functions)[i]?).filter
        (·.holds target) with
    | none => rfl
    | some function =>
      obtain ⟨hfunction, hholds⟩ := Option.filter_eq_some_iff.mp hat
      obtain ⟨i, -, hi⟩ := Option.bind_eq_some_iff.mp hfunction
      exact absurd hholds (hnone (page, function) (mem_functions.mpr ⟨n, next, i, hbounded, hi⟩))
  | some member =>
    have hholds := List.find?_some hfound
    obtain ⟨rfl, -, hat⟩ :=
      h.place_of_member hbounded hpages hplace (List.mem_of_find?_eq_some hfound) hholds
    rw [hat, Option.filter_some, if_pos hholds]
    rfl

end WellFormed

theorem pageEntries_ok (hlisting : listing.Stored index space) {n : Nat}
    (hbounded : listing.bounded[n]? = some (page, next)) :
    index.pageEntry space (listing.header index) n = .ok (page.row.entry index) ∧
      index.pageEntry space (listing.header index) (n + 1) = .ok (next.entry index) := by
  obtain ⟨hpage, hnext⟩ := bounded_eq_some.mp hbounded
  obtain ⟨hn, rfl⟩ := List.getElem?_eq_some_iff.mp hpage
  obtain ⟨hnextRow, rfl⟩ := List.getElem?_eq_some_iff.mp hnext
  have hrow : n < listing.rows.length := by omega
  refine ⟨?_, pageEntry_eq hlisting hnextRow⟩
  rw [pageEntry_eq hlisting hrow, getElem_rows hn hrow]

theorem Listing.personality_ok (hlisting : listing.Stored index space)
    (h : listing.WellFormed index space) {n i : Nat} {function : Function}
    (hbounded : listing.bounded[n]? = some (page, next))
    (hfunction : (spread next.first page.functions)[i]? = some function) :
    index.personality space (listing.header index) function.encoding.personality =
      .ok (listing.personalityOf index space function.encoding.personality) := by
  obtain ⟨hi, -⟩ := List.getElem?_eq_some_iff.mp hfunction
  rw [length_spread] at hi
  rw [getElem?_spread _ hi] at hfunction
  cases hfunction
  have hpage := List.mem_of_getElem? (bounded_eq_some.mp hbounded).1
  exact personality_eq hlisting (h.personalities page hpage _ (List.getElem_mem hi))

theorem lookup_of_bounded (hlisting : listing.Stored index space)
    (h : listing.WellFormed index space) {n : Nat}
    (hbounded : listing.bounded[n]? = some (page, next))
    (hpages : Search.LastUpTo listing.pages (·.row.first) target (some n))
    (hfound : Search.lastAtOrBefore
      (fun n => do return (← index.pageEntry space (listing.header index) n).functionOffset)
      target ((listing.header index).pageCount.toNat - 1) = .ok (some n)) :
    index.lookup space (listing.header index) target =
      .ok ((listing.functions.find? (·.2.holds target)).map fun member =>
        listing.entryOf index space member.1 member.2) := by
  have hpage := h.of_bounded hbounded
  have hmem := List.mem_of_getElem? (bounded_eq_some.mp hbounded).1
  have hstored := hlisting.pages _ hmem
  obtain ⟨hcurrent, hnext⟩ := pageEntries_ok hlisting hbounded
  have htarget : page.row.first ≤ target := by
    obtain ⟨hn, hle, -⟩ := hpages
    obtain ⟨_, hat⟩ := List.getElem?_eq_some_iff.mp (bounded_eq_some.mp hbounded).1
    rw [hat] at hle
    exact hle
  obtain ⟨place, hplace, hread⟩ := page_ok hpage hlisting hstored htarget
  refine Outcome.bind_eq_ok.mpr ⟨some n, hfound, ?_⟩
  refine Outcome.bind_eq_ok.mpr ⟨_, hcurrent, ?_⟩
  refine Outcome.bind_eq_ok.mpr ⟨_, hnext, ?_⟩
  by_cases hbehind : next.first ≤ target
  · refine (if_pos hbehind).trans ?_
    have hnone : listing.functions.find? (·.2.holds target) = none := by
      refine List.find?_eq_none.mpr fun member hmember hholds => ?_
      obtain ⟨-, hbefore, -⟩ := h.place_of_member hbounded hpages hplace hmember hholds
      exact absurd hbefore (UInt32.not_lt.mpr hbehind)
    rw [hnone]
    rfl
  · refine (if_neg hbehind).trans (Outcome.bind_eq_ok.mpr ⟨_, hread, ?_⟩)
    rw [h.find?_functions hbounded hpages hplace]
    cases hat : place.bind fun i => (spread next.first page.functions)[i]? with
    | none => rfl
    | some function =>
      obtain ⟨i, -, hfunction⟩ := Option.bind_eq_some_iff.mp hat
      rw [Option.filter_some]
      by_cases houtside : target < function.first ∨ function.stop ≤ target
      · refine (if_pos houtside).trans ?_
        rw [if_neg (Function.not_holds_iff.mpr houtside)]
        rfl
      · refine (if_neg houtside).trans ?_
        rw [if_pos (not_not.mp fun hnot => houtside (Function.not_holds_iff.mp hnot))]
        have hpersonality := Listing.personality_ok hlisting h hbounded hfunction
        by_cases hlsda : function.encoding.hasLsda = true
        · obtain ⟨address, haddress, hdata⟩ :=
            lsda_of_listed hpage hlisting.fits hstored hfunction hlsda
          refine (if_pos hlsda).trans ?_
          refine Outcome.bind_eq_ok.mpr ⟨some address, ?_, ?_⟩
          · exact Outcome.fmap_eq_ok.mpr ⟨address, haddress, rfl⟩
          refine Outcome.bind_eq_ok.mpr ⟨_, hpersonality, ?_⟩
          rw [← hdata]
          rfl
        · refine (if_neg hlsda).trans ?_
          refine Outcome.bind_eq_ok.mpr ⟨none, rfl, ?_⟩
          refine Outcome.bind_eq_ok.mpr ⟨_, hpersonality, ?_⟩
          have hdata : page.lsdaOf index function = none := if_neg hlsda
          rw [← hdata]
          rfl

theorem lookup_eq (hlisting : listing.Stored index space) (h : listing.WellFormed index space)
    (target : UInt32) :
    index.lookup space (listing.header index) target =
      .ok ((listing.functions.find? (·.2.holds target)).map fun member =>
        listing.entryOf index space member.1 member.2) := by
  have hcount : (listing.header index).pageCount.toNat - 1 = listing.pages.length := by
    have hrows : (listing.header index).pageCount.toNat = listing.rows.length :=
      UInt32.toNat_ofNat_of_lt' hlisting.pageCount.1
    rw [hrows, length_rows, Nat.add_sub_cancel]
  have hascending : listing.pages.Pairwise (·.row.first < ·.row.first) := by
    have hrows := (List.pairwise_append.mp h.ascending).1
    rw [List.pairwise_map] at hrows
    exact hrows
  have hkeys : ∀ n, ∀ hn : n < listing.pages.length,
      (do return (← index.pageEntry space (listing.header index) n).functionOffset) =
        (.ok listing.pages[n].row.first : Except CompactError UInt32) := by
    intro n hn
    have hrow : n < listing.rows.length := by rw [length_rows]; omega
    rw [pageEntry_eq hlisting hrow, getElem_rows hn hrow]
    rfl
  obtain ⟨found, hfound, hpages⟩ := Search.lastAtOrBefore_ok hascending hkeys target
  rw [← hcount] at hfound
  cases found with
  | none =>
    have hnone : listing.functions.find? (·.2.holds target) = none := by
      refine List.find?_eq_none.mpr fun member hmember hholds => ?_
      obtain ⟨hfirst, hstop⟩ := Function.holds_iff.mp hholds
      obtain ⟨n, next, i, hbounded, hfunction⟩ := mem_functions.mp hmember
      cases Search.LastUpTo.unique hpages (h.held hbounded hfunction hfirst hstop).2
    rw [hnone]
    exact Outcome.bind_eq_ok.mpr ⟨none, hfound, rfl⟩
  | some n =>
    obtain ⟨hn, -⟩ := id hpages
    have hnext : n + 1 < listing.rows.length := by rw [length_rows]; omega
    exact lookup_of_bounded hlisting h (bounded_eq_some.mpr
      ⟨List.getElem?_eq_getElem hn, List.getElem?_eq_getElem hnext⟩) hpages hfound

/-- An index with a regular page for the functions from 0x1000 to 0x2000 and a
compressed one for those up to 0x3000, and the slot of a personality behind it. -/
def twoPagesMemory : Snapshot where
  endian := .little
  regions := [
    ⟨0x100008000, [1, 0, 0, 0, 0x1c, 0, 0, 0, 1, 0, 0, 0, 0x20, 0, 0, 0, 1, 0, 0, 0, 0x24, 0, 0, 0,
      3, 0, 0, 0, 0, 0, 0, 1, 0, 0x90, 0, 0, 0, 0x10, 0, 0, 0x48, 0, 0, 0, 0x70, 0, 0, 0, 0, 0x20,
      0, 0, 0x58, 0, 0, 0, 0x70, 0, 0, 0, 0, 0x30, 0, 0, 0, 0, 0, 0, 0x78, 0, 0, 0, 2, 0, 0, 0, 8,
      0, 1, 0, 0, 0x10, 0, 0, 0, 0, 2, 2, 3, 0, 0, 0, 0x0c, 0, 2, 0, 0x14, 0, 1, 0, 0, 0, 0, 0, 0,
      8, 0, 1, 0, 0, 0, 0x51, 0, 0x28, 0, 0, 0, 0x60, 0, 0]⟩,
    ⟨0x100009000, [0x78, 0x56, 0x34, 0x12, 0xff, 0x7f, 0, 0]⟩]

def twoPagesIndex : CompactIndex := ⟨0x100008000, 120, 0x100000000⟩

def twoPages : Listing where
  encodingsAt := 28
  encodings := [⟨0x01000000⟩]
  personalitiesAt := 32
  personalities := [0x9000]
  pagesAt := 36
  pages := [
    { row := ⟨0x1000, 72, 112⟩
      kind := .regular
      place := 8
      functions := [⟨0x1000, ⟨0x02020000⟩⟩]
      lsdas := [] },
    { row := ⟨0x2000, 88, 112⟩
      kind := .compressed 20 [⟨0x51000000⟩]
      place := 12
      functions := [⟨0x2000, ⟨0x01000000⟩⟩, ⟨0x2800, ⟨0x51000000⟩⟩]
      lsdas := [(0x2800, 0x6000)] }]
  sentinel := ⟨0x3000, 0, 120⟩

instance (index : CompactIndex) (space : AddressSpace) (offset : Nat) (value : UInt32) :
    Decidable (index.Holds32 space offset value) :=
  inferInstanceAs (Decidable (_ ∧ _))

instance (index : CompactIndex) (space : AddressSpace) (offset : Nat) (value : UInt16) :
    Decidable (index.Holds16 space offset value) :=
  inferInstanceAs (Decidable (_ ∧ _))

theorem twoPages_stored : twoPages.Stored twoPagesIndex twoPagesMemory.space where
  fits := by
    unfold Fits
    decide
  version := by decide +kernel
  encodingsAt := by decide +kernel
  encodingCount := ⟨by decide, by decide +kernel⟩
  personalitiesAt := by decide +kernel
  personalityCount := ⟨by decide, by decide +kernel⟩
  pagesAt := by decide +kernel
  pageCount := ⟨by decide, by decide +kernel⟩
  encodings := by decide +kernel
  personalities := by decide +kernel
  rows := by
    have hrows : ∀ i, ∀ h : i < twoPages.rows.length,
        twoPagesIndex.Holds32 twoPagesMemory.space (36 + i * 12) twoPages.rows[i].first ∧
          twoPagesIndex.Holds32 twoPagesMemory.space (36 + i * 12 + 4) twoPages.rows[i].page ∧
          twoPagesIndex.Holds32 twoPagesMemory.space (36 + i * 12 + 8) twoPages.rows[i].lsdas := by
      decide +kernel
    exact fun i h => ⟨(hrows i h).1, (hrows i h).2.1, (hrows i h).2.2⟩
  pages := by
    refine List.forall_mem_cons.mpr ⟨?_, List.forall_mem_singleton.mpr ?_⟩
    · exact ⟨by decide +kernel, ⟨by decide, by decide +kernel⟩,
        ⟨by decide +kernel, by decide +kernel⟩, by decide +kernel⟩
    · have hfirst : twoPagesIndex.Holds32 twoPagesMemory.space 100
          (packed 0x2000 ⟨0x2000, ⟨0x01000000⟩⟩ 0) := by decide +kernel
      have hsecond : twoPagesIndex.Holds32 twoPagesMemory.space 104
          (packed 0x2000 ⟨0x2800, ⟨0x51000000⟩⟩ 1) := by decide +kernel
      refine ⟨by decide +kernel, ⟨by decide, by decide +kernel⟩, ⟨by decide +kernel,
        by decide +kernel, ⟨by decide, by decide +kernel⟩, by decide +kernel, ?_⟩,
        by decide +kernel⟩
      intro i h
      have hdistances : (0x2000 - 0x2000 < 2 ^ 24) ∧ (0x2800 - 0x2000 < 2 ^ 24) := by decide
      match i, h with
      | 0, _ => exact ⟨0, by decide, rfl, hdistances.1, hfirst⟩
      | 1, _ => exact ⟨1, by decide, rfl, hdistances.2, hsecond⟩

theorem twoPages_wellFormed : twoPages.WellFormed twoPagesIndex twoPagesMemory.space where
  ascending := by decide
  pages := by
    refine List.forall_mem_cons.mpr ⟨?_, List.forall_mem_singleton.mpr ?_⟩
    · refine ⟨by decide, by decide, by decide, by decide, ?_⟩
      exact List.forall_mem_singleton.mpr fun h => absurd h (by decide)
    · refine ⟨by decide, by decide, by decide, by decide, ?_⟩
      exact List.forall_mem_cons.mpr ⟨fun h => absurd h (by decide),
        List.forall_mem_singleton.mpr fun _ => ⟨0x6000, List.mem_singleton_self _⟩⟩
  personalities := by
    refine List.forall_mem_cons.mpr ⟨List.forall_mem_singleton.mpr fun h => absurd rfl h,
      List.forall_mem_singleton.mpr ?_⟩
    have hslot : twoPagesMemory.space.pointer 0x100009000 = .ok 0x7fff12345678 := by
      decide +kernel
    exact List.forall_mem_cons.mpr ⟨fun h => absurd rfl h, List.forall_mem_singleton.mpr
      fun _ => ⟨0x9000, 0x7fff12345678, rfl, hslot⟩⟩
  fits := by decide

/-- The same bytes, but each region was captured in two parts that touch. -/
def tornMemory : Snapshot where
  endian := .little
  regions := twoPagesMemory.regions.flatMap fun region =>
    [⟨region.base, region.bytes.take 2⟩, ⟨region.base + 2, region.bytes.drop 2⟩]

end Unwinding.CompactIndex
