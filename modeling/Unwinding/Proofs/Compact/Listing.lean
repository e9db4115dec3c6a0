import Mathlib.Data.Nat.Bitwise
import Unwinding.Compact.Index
import Unwinding.Proofs.Lookup.Search
import Unwinding.Proofs.Outcome
import Unwinding.Proofs.Reading.Success

/-!
# What a compact index lists

A listing is what an index says, apart from where in memory it says it: the
pages with their functions, the encodings and personalities that the functions
share, and the language data of each page. The section stores a listing if its
words are those of the listing, wherever in it the listing puts its tables. What
is read from a section that stores a listing is then what the listing says.
-/

namespace Unwinding.CompactIndex

/-- A function as a page lists it. -/
structure Listed where
  offset : UInt32
  encoding : CompactEncoding
  deriving Repr, DecidableEq

/-- A row of the first level. -/
structure PageRow where
  /-- Where the functions of the page begin. -/
  first : UInt32
  page : UInt32
  lsdas : UInt32
  deriving Repr, DecidableEq

inductive PageKind where
  | regular
  /-- The page has encodings of its own, at a place in it. -/
  | compressed (place : UInt16) (encodings : List CompactEncoding)
  deriving Repr, DecidableEq

structure Page where
  row : PageRow
  kind : PageKind
  /-- Where in the page the functions are. -/
  place : UInt16
  functions : List Listed
  /-- The offsets of functions, each with that of its language data. -/
  lsdas : List (UInt32 × UInt32)
  deriving Repr, DecidableEq

structure Listing where
  encodingsAt : UInt32
  encodings : List CompactEncoding
  personalitiesAt : UInt32
  /-- The offsets of the slots that hold the addresses of personalities. -/
  personalities : List UInt32
  pagesAt : UInt32
  pages : List Page
  /-- The row behind the last page. -/
  sentinel : PageRow
  deriving Repr, DecidableEq

def Listing.rows (listing : Listing) : List PageRow :=
  listing.pages.map (·.row) ++ [listing.sentinel]

/-- Each page, with the row behind its own. -/
def Listing.bounded (listing : Listing) : List (Page × PageRow) :=
  listing.pages.zip listing.rows.tail

section Stored

variable (index : CompactIndex) (space : AddressSpace)

/-- The section does not run over the last address. -/
def Fits : Prop := index.address.toNat + index.length.toNat < UInt64.size

/-- The address of a place in the section. -/
def addressOf (offset : Nat) : Word := index.address + UInt64.ofNat offset

def Holds32 (offset : Nat) (value : UInt32) : Prop :=
  offset + 4 ≤ index.length.toNat ∧ space.get32 (index.addressOf offset) = .ok value

def Holds16 (offset : Nat) (value : UInt16) : Prop :=
  offset + 2 ≤ index.length.toNat ∧ space.get16 (index.addressOf offset) = .ok value

/-- The section holds the number `n`, which is that of the elements of a table. -/
def Counts32 (offset n : Nat) : Prop :=
  n < UInt32.size ∧ index.Holds32 space offset (UInt32.ofNat n)

def Counts16 (offset n : Nat) : Prop :=
  n < UInt16.size ∧ index.Holds16 space offset (UInt16.ofNat n)

structure PageRow.Stored (row : PageRow) (offset : Nat) : Prop where
  first : index.Holds32 space offset row.first
  page : index.Holds32 space (offset + 4) row.page
  lsdas : index.Holds32 space (offset + 8) row.lsdas

/-- The word for a function on a compressed page: how far it is from the first
one, and the number of its encoding. -/
def packed (first : UInt32) (listed : Listed) (number : Nat) : UInt32 :=
  UInt32.ofNat (listed.offset.toNat - first.toNat + number * 2 ^ 24)

/-- The functions are on the page as its kind has them. The numbers of encodings
go through the common ones first, and then through those of the page. -/
def Page.FunctionsStored (common : List CompactEncoding) (page : Page) : Prop :=
  let start := page.row.page.toNat
  let functions := start + page.place.toNat
  match page.kind with
  | .regular => index.Holds32 space start 2 ∧
      ∀ i, ∀ h : i < page.functions.length,
        index.Holds32 space (functions + i * 8) page.functions[i].offset ∧
          index.Holds32 space (functions + i * 8 + 4) page.functions[i].encoding.bits
  | .compressed place encodings => index.Holds32 space start 3 ∧
      index.Holds16 space (start + 8) place ∧ index.Counts16 space (start + 10) encodings.length ∧
      (∀ i, ∀ h : i < encodings.length,
        index.Holds32 space (start + place.toNat + i * 4) encodings[i].bits) ∧
      ∀ i, ∀ h : i < page.functions.length, ∃ number < 256,
        (common ++ encodings)[number]? = some page.functions[i].encoding ∧
          page.functions[i].offset.toNat - page.row.first.toNat < 2 ^ 24 ∧
          index.Holds32 space (functions + i * 4) (packed page.row.first page.functions[i] number)

structure Page.Stored (common : List CompactEncoding) (page : Page) : Prop where
  place : index.Holds16 space (page.row.page.toNat + 4) page.place
  count : index.Counts16 space (page.row.page.toNat + 6) page.functions.length
  functions : page.FunctionsStored index space common
  lsdas : ∀ i, ∀ h : i < page.lsdas.length,
    index.Holds32 space (page.row.lsdas.toNat + i * 8) page.lsdas[i].1 ∧
      index.Holds32 space (page.row.lsdas.toNat + i * 8 + 4) page.lsdas[i].2

structure Listing.Stored (listing : Listing) : Prop where
  fits : index.Fits
  version : index.Holds32 space 0 1
  encodingsAt : index.Holds32 space 4 listing.encodingsAt
  encodingCount : index.Counts32 space 8 listing.encodings.length
  personalitiesAt : index.Holds32 space 12 listing.personalitiesAt
  personalityCount : index.Counts32 space 16 listing.personalities.length
  pagesAt : index.Holds32 space 20 listing.pagesAt
  pageCount : index.Counts32 space 24 listing.rows.length
  encodings : ∀ i, ∀ h : i < listing.encodings.length,
    index.Holds32 space (listing.encodingsAt.toNat + i * 4) listing.encodings[i].bits
  personalities : ∀ i, ∀ h : i < listing.personalities.length,
    index.Holds32 space (listing.personalitiesAt.toNat + i * 4) listing.personalities[i]
  rows : ∀ i, ∀ h : i < listing.rows.length,
    listing.rows[i].Stored index space (listing.pagesAt.toNat + i * 12)
  pages : ∀ page ∈ listing.pages, page.Stored index space listing.encodings

end Stored

variable {index : CompactIndex} {space : AddressSpace}

theorem addressOf_add (a b : Nat) :
    index.addressOf a + UInt64.ofNat b = index.addressOf (a + b) := by
  unfold addressOf
  rw [UInt64.ofNat_add, UInt64.add_assoc]

theorem address_add_offset (offset : UInt32) :
    index.address + offset.toUInt64 = index.addressOf offset.toNat := by
  unfold addressOf
  rw [UInt64.ofNat_uInt32ToNat]

theorem addressOf_add_offset (offset : Nat) (place : UInt16) :
    index.addressOf offset + place.toUInt64 = index.addressOf (offset + place.toNat) := by
  rw [← UInt64.ofNat_uInt16ToNat, addressOf_add]

theorem element_addressOf (offset size n : Nat) :
    element (index.addressOf offset) size n = index.addressOf (offset + n * size) :=
  addressOf_add offset (n * size)

theorem toNat_addressOf (hfits : index.Fits) {offset : Nat} (h : offset ≤ index.length.toNat) :
    (index.addressOf offset).toNat = index.address.toNat + offset :=
  Reading.toNat_add_ofNat (Nat.lt_of_le_of_lt (Nat.add_le_add_left h _) hfits)

section Holds

variable {offset : Nat} {limit : Word}

theorem Holds32.read {value : UInt32} (h : index.Holds32 space offset value) (hfits : index.Fits)
    (hlimit : index.address.toNat + index.length.toNat ≤ limit.toNat) :
    Reading.u32 space ⟨index.addressOf offset, limit⟩ =
      .ok value ⟨index.addressOf (offset + 4), limit⟩ := by
  obtain ⟨hroom, hvalue⟩ := h
  have hpos : (index.addressOf offset).toNat = index.address.toNat + offset :=
    toNat_addressOf hfits (by omega)
  refine (Reading.taken_eq_ok 4).mpr ⟨?_, hvalue, ?_⟩
  · change (index.addressOf offset).toNat + 4 ≤ limit.toNat
    omega
  · rw [addressOf_add]

theorem Holds16.read {value : UInt16} (h : index.Holds16 space offset value) (hfits : index.Fits)
    (hlimit : index.address.toNat + index.length.toNat ≤ limit.toNat) :
    Reading.u16 space ⟨index.addressOf offset, limit⟩ =
      .ok value ⟨index.addressOf (offset + 2), limit⟩ := by
  obtain ⟨hroom, hvalue⟩ := h
  have hpos : (index.addressOf offset).toNat = index.address.toNat + offset :=
    toNat_addressOf hfits (by omega)
  refine (Reading.taken_eq_ok 2).mpr ⟨?_, hvalue, ?_⟩
  · change (index.addressOf offset).toNat + 2 ≤ limit.toNat
    omega
  · rw [addressOf_add]

theorem Holds32.load {value : UInt32} (h : index.Holds32 space offset value) :
    CompactError.load32 space (index.addressOf offset) = .ok value := by
  unfold CompactError.load32
  rw [h.2]
  rfl

end Holds

theorem Holds32.lift {offset : Nat} {limit : Word} {value : UInt32}
    (h : index.Holds32 space offset value) (hfits : index.Fits)
    (hlimit : index.address.toNat + index.length.toNat ≤ limit.toNat) :
    (liftM Reading.u32 : Reading CompactError UInt32) space ⟨index.addressOf offset, limit⟩ =
      .ok value ⟨index.addressOf (offset + 4), limit⟩ :=
  Reading.mapError_eq_ok.mpr (h.read hfits hlimit)

theorem Holds16.lift {offset : Nat} {limit : Word} {value : UInt16}
    (h : index.Holds16 space offset value) (hfits : index.Fits)
    (hlimit : index.address.toNat + index.length.toNat ≤ limit.toNat) :
    (liftM Reading.u16 : Reading CompactError UInt16) space ⟨index.addressOf offset, limit⟩ =
      .ok value ⟨index.addressOf (offset + 2), limit⟩ :=
  Reading.mapError_eq_ok.mpr (h.read hfits hlimit)

theorem addressOf_zero : index.addressOf 0 = index.address := UInt64.add_zero _

theorem Fits.le_lastAddress (hfits : index.Fits) :
    index.address.toNat + index.length.toNat ≤ lastAddress.toNat := by
  have hlast : lastAddress.toNat + 1 = UInt64.size := rfl
  unfold Fits at hfits
  omega

def Listing.header (listing : Listing) (index : CompactIndex) : Header where
  encodings := index.address + listing.encodingsAt.toUInt64
  encodingCount := UInt32.ofNat listing.encodings.length
  personalities := index.address + listing.personalitiesAt.toUInt64
  personalityCount := UInt32.ofNat listing.personalities.length
  pages := index.address + listing.pagesAt.toUInt64
  pageCount := UInt32.ofNat listing.rows.length

def PageRow.entry (row : PageRow) (index : CompactIndex) : PageEntry where
  functionOffset := row.first
  page := index.address + row.page.toUInt64
  lsdas := index.address + row.lsdas.toUInt64

variable {listing : Listing}

theorem headerReading_eq (index : CompactIndex) :
    index.headerReading = (do
      let version ← Reading.u32
      if version ≠ 1 then throw (.unsupportedVersion version)
      else
        let encodings ← Reading.u32
        let encodingCount ← Reading.u32
        let personalities ← Reading.u32
        let personalityCount ← Reading.u32
        let pages ← Reading.u32
        let pageCount ← Reading.u32
        return {
          encodings := index.address + encodings.toUInt64
          encodingCount
          personalities := index.address + personalities.toUInt64
          personalityCount
          pages := index.address + pages.toUInt64
          pageCount }) := rfl

theorem header_eq (h : listing.Stored index space) :
    index.header space = .ok (listing.header index) := by
  have hlimit : index.address.toNat + index.length.toNat ≤
      (index.address + index.length).toNat := by
    rw [UInt64.toNat_add]
    exact Nat.le_of_eq (Nat.mod_eq_of_lt h.fits).symm
  refine Reading.result_eq_ok.mpr ⟨⟨index.addressOf 28, index.address + index.length⟩, ?_⟩
  have hversion := h.version.lift h.fits hlimit
  rw [addressOf_zero] at hversion
  rw [headerReading_eq]
  refine Reading.bind_eq_ok.mpr ⟨1, _, hversion, ?_⟩
  rw [if_neg (not_not_intro rfl)]
  refine Reading.bind_eq_ok.mpr ⟨_, _, h.encodingsAt.lift h.fits hlimit, ?_⟩
  refine Reading.bind_eq_ok.mpr ⟨_, _, h.encodingCount.2.lift h.fits hlimit, ?_⟩
  refine Reading.bind_eq_ok.mpr ⟨_, _, h.personalitiesAt.lift h.fits hlimit, ?_⟩
  refine Reading.bind_eq_ok.mpr ⟨_, _, h.personalityCount.2.lift h.fits hlimit, ?_⟩
  refine Reading.bind_eq_ok.mpr ⟨_, _, h.pagesAt.lift h.fits hlimit, ?_⟩
  refine Reading.bind_eq_ok.mpr ⟨_, _, h.pageCount.2.lift h.fits hlimit, ?_⟩
  exact Reading.pure_eq_ok.mpr ⟨rfl, rfl⟩

theorem pageEntry_eq (h : listing.Stored index space) {i : Nat} (hi : i < listing.rows.length) :
    index.pageEntry space (listing.header index) i = .ok (listing.rows[i].entry index) := by
  obtain ⟨hfirst, hpage, hlsdas⟩ := h.rows i hi
  have hlimit := h.fits.le_lastAddress
  refine Reading.result_eq_ok.mpr
    ⟨⟨index.addressOf (listing.pagesAt.toNat + i * 12 + 12), lastAddress⟩, ?_⟩
  have hplace : element (listing.header index).pages 12 i =
      index.addressOf (listing.pagesAt.toNat + i * 12) := by
    rw [← element_addressOf, ← address_add_offset]
    rfl
  rw [hplace]
  refine Reading.bind_eq_ok.mpr ⟨_, _, hfirst.lift h.fits hlimit, ?_⟩
  refine Reading.bind_eq_ok.mpr ⟨_, _, hpage.lift h.fits hlimit, ?_⟩
  refine Reading.bind_eq_ok.mpr ⟨_, _, hlsdas.lift h.fits hlimit, ?_⟩
  exact Reading.pure_eq_ok.mpr ⟨rfl, rfl⟩

/-- The functions of a page, each up to the next one, and the last up to `stop`. -/
def spread (stop : UInt32) : List Listed → List Function
  | [] => []
  | listed :: rest =>
    ⟨listed.offset, (rest.head?.map (·.offset)).getD stop, listed.encoding⟩ :: spread stop rest

theorem length_spread (stop : UInt32) (functions : List Listed) :
    (spread stop functions).length = functions.length := by
  induction functions with
  | nil => rfl
  | cons listed rest ih => exact congrArg (· + 1) ih

theorem getElem?_spread (stop : UInt32) {functions : List Listed} {i : Nat}
    (h : i < functions.length) :
    (spread stop functions)[i]? =
      some ⟨functions[i].offset, (functions[i + 1]?.map (·.offset)).getD stop,
        functions[i].encoding⟩ := by
  induction functions generalizing i with
  | nil => exact absurd h (Nat.not_lt_zero i)
  | cons listed rest ih =>
    cases i with
    | zero => cases rest <;> rfl
    | succ i => exact ih (Nat.lt_of_succ_lt_succ h)

section Functions

variable {entries : Word} {functions : List Listed} {stop target : UInt32}

theorem regular_ok (ascending : functions.Pairwise (·.offset < ·.offset))
    (hstored : ∀ i, ∀ h : i < functions.length,
      CompactError.load32 space (element entries 8 i) = .ok functions[i].offset ∧
        CompactError.load32 space (element entries 8 i + 4) = .ok functions[i].encoding.bits) :
    ∃ place, Search.LastUpTo functions (·.offset) target place ∧
      regular space entries functions.length target stop =
        .ok (place.bind fun i => (spread stop functions)[i]?) := by
  obtain ⟨place, hplace, hlast⟩ := Search.lastAtOrBefore_ok ascending
    (fun i h => (hstored i h).1) target
  refine ⟨place, hlast, Outcome.bind_eq_ok.mpr ⟨place, hplace, ?_⟩⟩
  cases place with
  | none => rfl
  | some i =>
    obtain ⟨hi, -, -⟩ := hlast
    obtain ⟨hoffset, hbits⟩ := hstored i hi
    refine Outcome.bind_eq_ok.mpr ⟨_, hoffset, ?_⟩
    refine Outcome.bind_eq_ok.mpr ⟨_, hbits, ?_⟩
    rw [Option.bind_some, getElem?_spread stop hi]
    by_cases hnext : i + 1 < functions.length
    · rw [if_pos hnext, List.getElem?_eq_getElem hnext]
      exact Outcome.bind_eq_ok.mpr ⟨_, (hstored (i + 1) hnext).1, rfl⟩
    · rw [if_neg hnext, List.getElem?_eq_none (Nat.le_of_not_lt hnext)]
      rfl

section Compressed

variable {first : UInt32} {listed : Listed} {number : Nat}

theorem toNat_packed (hdistance : listed.offset.toNat - first.toNat < 2 ^ 24)
    (hnumber : number < 256) :
    (packed first listed number).toNat =
      listed.offset.toNat - first.toNat + number * 2 ^ 24 :=
  UInt32.toNat_ofNat_of_lt' (by rw [show UInt32.size = 2 ^ 32 from rfl]; omega)

theorem packed_distance (hfirst : first ≤ listed.offset)
    (hdistance : listed.offset.toNat - first.toNat < 2 ^ 24) (hnumber : number < 256) :
    packed first listed number &&& 0x00ffffff = listed.offset - first := by
  apply UInt32.toNat_inj.mp
  have hmask : (0x00ffffff : UInt32).toNat = 2 ^ 24 - 1 := rfl
  rw [UInt32.toNat_and, toNat_packed hdistance hnumber, hmask, Nat.and_two_pow_sub_one_eq_mod,
    UInt32.toNat_sub_of_le _ _ hfirst, Nat.add_mul_mod_self_right, Nat.mod_eq_of_lt hdistance]

theorem packed_number (hdistance : listed.offset.toNat - first.toNat < 2 ^ 24)
    (hnumber : number < 256) : (packed first listed number >>> 24).toNat = number := by
  have hplaces : (24 : UInt32).toNat % 32 = 24 := rfl
  rw [UInt32.toNat_shiftRight, toNat_packed hdistance hnumber, hplaces, Nat.shiftRight_eq_div_pow]
  omega

theorem sub_lt_sub_iff {a b : UInt32} (ha : first ≤ a) (hb : first ≤ b) :
    a - first < b - first ↔ a < b := by
  rw [UInt32.lt_iff_toNat_lt, UInt32.lt_iff_toNat_lt, UInt32.toNat_sub_of_le _ _ ha,
    UInt32.toNat_sub_of_le _ _ hb]
  rw [UInt32.le_iff_toNat_le] at ha hb
  omega

end Compressed

variable {header : Header} {common own : List CompactEncoding} {encodings : Word}

theorem numberedEncoding_eq (hcount : header.encodingCount.toNat = common.length)
    (hcommon : ∀ i, ∀ h : i < common.length,
      CompactError.load32 space (element header.encodings 4 i) = .ok common[i].bits)
    (hown : ∀ i, ∀ h : i < own.length,
      CompactError.load32 space (element encodings 4 i) = .ok own[i].bits)
    {number : Nat} {encoding : CompactEncoding}
    (hnumber : (common ++ own)[number]? = some encoding) :
    numberedEncoding space header encodings own.length number = .ok encoding := by
  unfold numberedEncoding
  simp only [hcount]
  by_cases hin : number < common.length
  · rw [if_pos hin]
    rw [List.getElem?_append_left hin, List.getElem?_eq_getElem hin] at hnumber
    cases hnumber
    exact Outcome.bind_eq_ok.mpr ⟨_, hcommon number hin, rfl⟩
  · rw [if_neg hin]
    rw [List.getElem?_append_right (Nat.le_of_not_lt hin)] at hnumber
    obtain ⟨hlocal, rfl⟩ := List.getElem?_eq_some_iff.mp hnumber
    rw [if_pos hlocal]
    exact Outcome.bind_eq_ok.mpr ⟨_, hown _ hlocal, rfl⟩

theorem compressed_ok {first : UInt32} (ascending : functions.Pairwise (·.offset < ·.offset))
    (hfirst : ∀ listed ∈ functions, first ≤ listed.offset) (htarget : first ≤ target)
    (hcount : header.encodingCount.toNat = common.length)
    (hcommon : ∀ i, ∀ h : i < common.length,
      CompactError.load32 space (element header.encodings 4 i) = .ok common[i].bits)
    (hown : ∀ i, ∀ h : i < own.length,
      CompactError.load32 space (element encodings 4 i) = .ok own[i].bits)
    (hstored : ∀ i, ∀ h : i < functions.length, ∃ number < 256,
      (common ++ own)[number]? = some functions[i].encoding ∧
        functions[i].offset.toNat - first.toNat < 2 ^ 24 ∧
        CompactError.load32 space (element entries 4 i) = .ok (packed first functions[i] number)) :
    ∃ place, Search.LastUpTo functions (·.offset) target place ∧
      compressed space header entries functions.length encodings own.length first target stop =
        .ok (place.bind fun i => (spread stop functions)[i]?) := by
  have hascending : functions.Pairwise (·.offset - first < ·.offset - first) :=
    ascending.imp_of_mem fun ha hb hlt => (sub_lt_sub_iff (hfirst _ ha) (hfirst _ hb)).mpr hlt
  have hkey : ∀ i, ∀ h : i < functions.length,
      (do return (← CompactError.load32 space (element entries 4 i)) &&& 0x00ffffff) =
        (.ok (functions[i].offset - first) : Except CompactError UInt32) := by
    intro i h
    obtain ⟨number, hnumber, -, hdistance, hload⟩ := hstored i h
    rw [← packed_distance (hfirst _ (List.getElem_mem h)) hdistance hnumber, hload]
    rfl
  obtain ⟨place, hplace, hlast⟩ := Search.lastAtOrBefore_ok hascending hkey (target - first)
  replace hlast : Search.LastUpTo functions (·.offset) target place :=
    hlast.congr fun listed hlisted => sub_lt_sub_iff htarget (hfirst listed hlisted)
  refine ⟨place, hlast, Outcome.bind_eq_ok.mpr ⟨place, hplace, ?_⟩⟩
  cases place with
  | none => rfl
  | some i =>
    obtain ⟨hi, -, -⟩ := hlast
    obtain ⟨number, hnumber, hencoding, hdistance, hload⟩ := hstored i hi
    have habsolute (listed : Listed) : first + (listed.offset - first) = listed.offset := by
      rw [UInt32.add_comm, UInt32.sub_add_cancel]
    have hword : numberedEncoding space header encodings own.length
        (packed first functions[i] number >>> 24).toNat = .ok functions[i].encoding := by
      rw [packed_number hdistance hnumber]
      exact numberedEncoding_eq hcount hcommon hown hencoding
    refine Outcome.bind_eq_ok.mpr ⟨_, hload, ?_⟩
    rw [Option.bind_some, getElem?_spread stop hi,
      packed_distance (hfirst _ (List.getElem_mem hi)) hdistance hnumber, habsolute]
    by_cases hnext : i + 1 < functions.length
    · rw [if_pos hnext, List.getElem?_eq_getElem hnext]
      refine Outcome.bind_eq_ok.mpr ⟨functions[i + 1].offset, ?_, ?_⟩
      · refine Outcome.fmap_eq_ok.mpr ⟨_, hkey (i + 1) hnext, ?_⟩
        exact habsolute functions[i + 1]
      · exact Outcome.bind_eq_ok.mpr ⟨_, hword, rfl⟩
    · rw [if_neg hnext, List.getElem?_eq_none (Nat.le_of_not_lt hnext)]
      refine Outcome.bind_eq_ok.mpr ⟨stop, rfl, ?_⟩
      exact Outcome.bind_eq_ok.mpr ⟨_, hword, rfl⟩

end Functions

end Unwinding.CompactIndex
