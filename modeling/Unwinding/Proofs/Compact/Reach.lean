import Unwinding.Proofs.Compact.Agreement
import Unwinding.Proofs.Reading.Confined
import Unwinding.Proofs.Reading.Stored

/-!
# How far the index reaches

The header is decoded within the section. The tables it leads to are not: where
they are and how long they are comes from the section, and nothing compares that
with its end. So what is found is settled by the section, and the slots of its
personalities, unless an element of a table is read that lies behind the section.
Then it is that read which decides, as it would fail the search by failing.
-/

namespace Unwinding

namespace CompactIndex

section Reads

variable {α β κ : Type} (allowed place : Word → Nat → Prop) (space : AddressSpace)

/-- Nothing but what is allowed to be read decides on the result. -/
def Settled (f : AddressSpace → Except CompactError α) : Prop :=
  ∀ other, space.Alike allowed other → f other = f space

/-- Whatever else the memory holds, `f` makes this read, which is not allowed. -/
structure Strays (f : AddressSpace → Except CompactError α) (address : Word) (count : Nat) :
    Prop where
  outside : ¬ allowed address count
  made : ∀ other, space.Alike allowed other → ∀ error,
    other.read address count = .error error → f other = .error (.memory error)

/-- If `f` strays at all, it does so within a place. -/
def KeepsTo (f : AddressSpace → Except CompactError α) : Prop :=
  Settled allowed space f ∨
    ∃ address count, place address count ∧ Strays allowed space f address count

variable {allowed place space} {f : AddressSpace → Except CompactError α}

/-- A read that is made, and not allowed, leaves the result open. -/
theorem Strays.not_settled {address : Word} {count : Nat}
    (h : Strays allowed space f address count) : ¬ Settled allowed space f := by
  intro hsettled
  have hfails (error : MemoryError) : f space = .error (.memory error) := by
    obtain ⟨other, halike, hread⟩ := space.exists_alike allowed error
    rw [← hsettled other halike]
    exact h.made other halike error (hread address count h.outside)
  have hboth := (hfails (.unsupportedEncoding 0)).symm.trans (hfails (.missingBase 0))
  cases hboth

theorem KeepsTo.settled_iff (h : KeepsTo allowed place space f) :
    Settled allowed space f ↔
      ∀ address count, place address count → ¬ Strays allowed space f address count := by
  constructor
  · exact fun hsettled _ _ _ hstrays => hstrays.not_settled hsettled
  · intro hnone
    rcases h with hsettled | ⟨address, count, hplace, hstrays⟩
    · exact hsettled
    · exact absurd hstrays (hnone address count hplace)

theorem Settled.const (result : Except CompactError α) : Settled allowed space fun _ => result :=
  fun _ _ => rfl

theorem KeepsTo.const (result : Except CompactError α) :
    KeepsTo allowed place space fun _ => result := .inl (.const result)

theorem Strays.bind {address : Word} {count : Nat} (h : Strays allowed space f address count)
    (g : α → AddressSpace → Except CompactError β) :
    Strays allowed space (fun space => f space >>= (g · space)) address count where
  outside := h.outside
  made := by
    intro other halike error hread
    change (f other >>= (g · other)) = _
    rw [h.made other halike error hread]
    rfl

theorem KeepsTo.bind {g : α → AddressSpace → Except CompactError β}
    (h : KeepsTo allowed place space f)
    (hg : Settled allowed space f → ∀ a, f space = .ok a → KeepsTo allowed place space (g a)) :
    KeepsTo allowed place space fun space => f space >>= (g · space) := by
  rcases h with hsettled | ⟨address, count, hplace, hstrays⟩
  · cases hf : f space with
    | error error =>
      refine .inl fun other halike => ?_
      change (f other >>= (g · other)) = (f space >>= (g · space))
      rw [hsettled other halike, hf]
      rfl
    | ok a =>
      have hsame : ∀ other, space.Alike allowed other →
          (f other >>= (g · other)) = g a other := by
        intro other halike
        rw [hsettled other halike, hf]
        rfl
      rcases hg hsettled a hf with hnext | ⟨address, count, hplace, hnext⟩
      · refine .inl fun other halike => ?_
        change (f other >>= (g · other)) = (f space >>= (g · space))
        rw [hsame other halike, hsame space (.refl allowed space)]
        exact hnext other halike
      · refine .inr ⟨address, count, hplace, hnext.outside, fun other halike error hread => ?_⟩
        change (f other >>= (g · other)) = _
        rw [hsame other halike]
        exact hnext.made other halike error hread
  · exact .inr ⟨address, count, hplace, hstrays.bind g⟩

theorem KeepsTo.congr {f' : AddressSpace → Except CompactError α}
    (h : KeepsTo allowed place space f)
    (hsame : ∀ other, space.Alike allowed other → f' other = f other) :
    KeepsTo allowed place space f' := by
  rcases h with hsettled | ⟨address, count, hplace, hstrays⟩
  · refine .inl fun other halike => ?_
    rw [hsame other halike, hsame space (.refl allowed space)]
    exact hsettled other halike
  · refine .inr ⟨address, count, hplace, hstrays.outside, fun other halike error hread => ?_⟩
    rw [hsame other halike]
    exact hstrays.made other halike error hread

theorem KeepsTo.map (h : KeepsTo allowed place space f) (g : α → β) :
    KeepsTo allowed place space fun space => g <$> f space := by
  have hbind (space : AddressSpace) : g <$> f space = (f space >>= fun a => .ok (g a)) := by
    cases f space <;> rfl
  simp only [hbind]
  exact h.bind fun _ _ _ => .const _

theorem KeepsTo.ite {condition : Prop} [Decidable condition]
    {f' : AddressSpace → Except CompactError α} (h : condition → KeepsTo allowed place space f)
    (h' : ¬ condition → KeepsTo allowed place space f') :
    KeepsTo allowed place space fun space => if condition then f space else f' space := by
  by_cases hcondition : condition
  · simp only [if_pos hcondition]
    exact h hcondition
  · simp only [if_neg hcondition]
    exact h' hcondition

section Number

variable (address : Word) (count : Nat) (wrap : Nat → α)

/-- A number, as the decoders of the index load one. -/
def loaded (space : AddressSpace) : Except CompactError α :=
  ((space.number address count).map wrap).mapError .memory

theorem settled_loaded (h : allowed address count) :
    Settled allowed space (loaded address count wrap) := by
  intro other halike
  unfold loaded
  rw [Reading.number_congr address halike.endian (halike.read address count h)]

theorem strays_loaded (h : ¬ allowed address count) :
    Strays allowed space (loaded address count wrap) address count where
  outside := h
  made := by
    intro other _ error hread
    unfold loaded AddressSpace.number
    rw [hread]
    rfl

theorem keepsTo_loaded (h : place address count) :
    KeepsTo allowed place space (loaded address count wrap) := by
  by_cases hallowed : allowed address count
  · exact .inl (settled_loaded address count wrap hallowed)
  · exact .inr ⟨address, count, h, strays_loaded address count wrap hallowed⟩

end Number

theorem keepsTo_load32 {address : Word} (h : place address 4) :
    KeepsTo allowed place space (CompactError.load32 · address) :=
  keepsTo_loaded address 4 UInt32.ofNat h

/-- A decoder that takes a number of a fixed size first loads it from where it
stands, if its span has that much. -/
theorem result_taken (count : Nat) (wrap : Nat → α) (rest : α → Reading CompactError β)
    (space : AddressSpace) (span : Span) :
    ((liftM (Reading.take count >>= fun address => Reading.fetch fun space =>
        (space.number address count).map wrap) : Reading CompactError α) >>= rest).result
        space span =
      if span.pos.toNat + count ≤ span.limit.toNat then
        loaded span.pos count wrap space >>= fun a =>
          (rest a).result space { span with pos := span.pos + UInt64.ofNat count }
      else .error (.memory (.pastLimit span.pos count span.limit)) := by
  have hlift (read : Reading MemoryError α) : (liftM read : Reading CompactError α) space span =
      EStateM.adaptExcept CompactError.memory (read space) span := rfl
  unfold Reading.result
  rw [Reading.bind_apply, hlift]
  unfold EStateM.adaptExcept
  rw [Reading.take_apply]
  by_cases hroom : span.pos.toNat + count ≤ span.limit.toNat
  · rw [if_pos hroom, if_pos hroom]
    unfold Reading.fetch loaded
    dsimp only
    cases (space.number span.pos count).map wrap <;> rfl
  · rw [if_neg hroom, if_neg hroom]

theorem result_fetch (f : AddressSpace → Except CompactError α) (space : AddressSpace)
    (span : Span) : (Reading.fetch f).result space span = f space := by
  unfold Reading.result Reading.fetch
  cases f space <;> rfl

/-- A decoder that has come `offset` bytes from its base keeps to the number it
takes there, and to what it decodes behind it. -/
theorem KeepsTo.taken {base limit : Word} {offset count : Nat} {wrap : Nat → α}
    {rest : α → Reading CompactError β} (h : place (base + UInt64.ofNat offset) count)
    (hrest : ∀ a, loaded (base + UInt64.ofNat offset) count wrap space = .ok a →
      KeepsTo allowed place space
        ((rest a).result · ⟨base + UInt64.ofNat (offset + count), limit⟩)) :
    KeepsTo allowed place space
      (((liftM (Reading.take count >>= fun address => Reading.fetch fun space =>
        (space.number address count).map wrap) : Reading CompactError α) >>= rest).result
        · ⟨base + UInt64.ofNat offset, limit⟩) := by
  simp only [result_taken]
  refine .ite (fun _ => .bind (keepsTo_loaded _ count wrap h) fun _ a ha => ?_) fun _ => .const _
  rw [UInt64.add_assoc, ← UInt64.ofNat_add]
  exact hrest a ha

section Search

variable [LE κ] [DecidableLE κ] {key : AddressSpace → Nat → Except CompactError κ}

theorem KeepsTo.countBetween (target : κ) {low high : Nat}
    (hkeys : ∀ n < high, KeepsTo allowed place space (key · n)) :
    KeepsTo allowed place space fun space => Search.countBetween (key space) target low high := by
  induction width : high - low using Nat.strongRecOn generalizing low high with
  | ind width ih =>
    by_cases hlow : low < high
    · simp only [Search.countBetween_round _ target hlow]
      refine .bind (hkeys _ (by omega)) fun _ k _ => .ite (fun _ => ?_) fun _ => ?_
      · exact ih _ (by omega) hkeys rfl
      · exact ih _ (by omega) (fun n hn => hkeys n (by omega)) rfl
    · simp only [Search.countBetween_done _ target hlow]
      exact .const _

theorem KeepsTo.search (target : κ) {count : Nat}
    (hkeys : ∀ n < count, KeepsTo allowed place space (key · n)) :
    KeepsTo allowed place space fun space => Search.lastAtOrBefore (key space) target count := by
  refine .bind (.countBetween target hkeys) fun _ found _ => ?_
  cases found <;> exact .const _

end Search

end Reads

/-- One of the tables of an index. -/
structure Extent where
  start : Word
  /-- How many bytes an element takes. -/
  size : Nat
  count : Nat
  deriving Repr, DecidableEq

/-- The bytes are part of an element. -/
def Extent.Has (table : Extent) (address : Word) (count : Nat) : Prop :=
  ∃ n < table.count, ∃ offset, offset + count ≤ table.size ∧
    address = element table.start table.size n + UInt64.ofNat offset

/-- All bytes of the table belong to a place. -/
def Extent.LiesIn (table : Extent) (place : Word → Nat → Prop) : Prop :=
  ∀ address count, table.Has address count → place address count

section Tables

variable (index : CompactIndex) (space : AddressSpace)

def Inside (address : Word) (count : Nat) : Prop :=
  index.address ≤ address ∧
    address.toNat + count ≤ index.address.toNat + index.length.toNat

/-- The section has the slot in its table of personalities. -/
def Slot (address : Word) : Prop :=
  ∃ header n offset, index.header space = .ok header ∧ n < header.personalityCount.toNat ∧
    index.Inside (element header.personalities 4 n) 4 ∧
    CompactError.load32 space (element header.personalities 4 n) = .ok offset ∧
    address = index.imageBase + offset.toUInt64

/-- What belongs to the index: its section, and the slots of its personalities. -/
def Owned (address : Word) (count : Nat) : Prop :=
  index.Inside address count ∨ count = 8 ∧ index.Slot space address

/-- How many functions have language data, by the first level. -/
def lsdaCount (current next : PageEntry) : Nat :=
  (UInt32.ofNat ((next.lsdas.toNat - current.lsdas.toNat) / 8)).toNat

def pageTables (page : Word) : List Extent :=
  ⟨page, 8, 1⟩ ::
    match space.get32 page, space.get16 (page + 4), space.get16 (page + 6) with
    | .ok 2, .ok place, .ok count => [⟨page + place.toUInt64, 8, count.toNat⟩]
    | .ok 3, .ok place, .ok count =>
      ⟨page, 12, 1⟩ :: ⟨page + place.toUInt64, 4, count.toNat⟩ ::
        match space.get16 (page + 8), space.get16 (page + 10) with
        | .ok place, .ok count => [⟨page + place.toUInt64, 4, count.toNat⟩]
        | _, _ => []
    | _, _, _ => []

/-- The tables of page number `n`. -/
def numberedTables (header : Header) (n : Nat) : List Extent :=
  match index.pageEntry space header n, index.pageEntry space header (n + 1) with
  | .ok current, .ok next =>
    ⟨current.lsdas, 8, lsdaCount current next⟩ :: pageTables space current.page
  | _, _ => []

/-- The tables that the section describes, wherever it says they are. -/
def tables : List Extent :=
  match index.header space with
  | .ok header =>
    ⟨header.encodings, 4, header.encodingCount.toNat⟩ ::
      ⟨header.personalities, 4, header.personalityCount.toNat⟩ ::
      ⟨header.pages, 12, header.pageCount.toNat⟩ ::
      (List.range (header.pageCount.toNat - 1)).flatMap (index.numberedTables space header)
  | .error _ => []

/-- The bytes are part of an element of one of the tables. -/
def Tabled (address : Word) (count : Nat) : Prop :=
  ∃ table ∈ index.tables space, table.Has address count

end Tables

variable {index : CompactIndex} {space other : AddressSpace} {header : Header}

theorem add_ofNat_zero (address : Word) : address + UInt64.ofNat 0 = address :=
  UInt64.add_zero address

theorem Extent.has_element {start : Word} {size count n length : Nat} (hn : n < count)
    (offset : Nat) (h : offset + length ≤ size) :
    Extent.Has ⟨start, size, count⟩ (element start size n + UInt64.ofNat offset) length :=
  ⟨n, hn, offset, h, rfl⟩

theorem Extent.has_front {start : Word} {size count n length : Nat} (hn : n < count)
    (h : length ≤ size) : Extent.Has ⟨start, size, count⟩ (element start size n) length :=
  ⟨n, hn, 0, (Nat.zero_add length).symm ▸ h, (add_ofNat_zero _).symm⟩

theorem Extent.has_single {start : Word} {size length : Nat} (offset : Nat)
    (h : offset + length ≤ size) :
    Extent.Has ⟨start, size, 1⟩ (start + UInt64.ofNat offset) length := by
  refine ⟨0, Nat.one_pos, offset, h, ?_⟩
  unfold element
  rw [Nat.zero_mul, add_ofNat_zero]

theorem confined_headerReading (index : CompactIndex) : index.headerReading.Confined := by
  have hword : (liftM Reading.u32 : Reading CompactError UInt32).Confined :=
    Reading.confined_u32.mapError _
  rw [headerReading_eq]
  refine hword.bind fun version => .ite (.throw _) ?_
  refine hword.bind fun _ => hword.bind fun _ => hword.bind fun _ => ?_
  exact hword.bind fun _ => hword.bind fun _ => hword.bind fun _ => .pure _

theorem header_of_wrapped (h : index.address + index.length < index.address) :
    index.header space =
      .error (.memory (.pastLimit index.address 4 (index.address + index.length))) := by
  unfold header
  rw [headerReading_eq]
  refine (result_taken 4 UInt32.ofNat _ space _).trans (if_neg ?_)
  change ¬ index.address.toNat + 4 ≤ (index.address + index.length).toNat
  rw [UInt64.lt_iff_toNat_lt] at h
  omega

theorem header_of_alike (h : space.Alike index.Inside other) :
    index.header other = index.header space := by
  by_cases hwrapped : index.address + index.length < index.address
  · rw [header_of_wrapped hwrapped, header_of_wrapped hwrapped]
  · have hle := UInt64.not_lt.mp hwrapped
    have hbetween : other.between index.address (index.address + index.length) =
        space.between index.address (index.address + index.length) := by
      unfold AddressSpace.between
      rw [h.endian]
      congr 1
      funext address count
      refine if_ctx_congr Iff.rfl (fun hin => h.read address count ⟨hin.1, ?_⟩) fun _ => rfl
      have hend := Nat.mod_le (index.address.toNat + index.length.toNat) UInt64.size
      rw [UInt64.toNat_add] at hin
      exact Nat.le_trans hin.2 hend
    have hsame := (confined_headerReading index).same
    unfold header Reading.result
    rw [← hsame other _ _ ⟨index.address, _⟩ (UInt64.le_refl _) hle (UInt64.le_refl _), hbetween,
      hsame space _ _ ⟨index.address, _⟩ (UInt64.le_refl _) hle (UInt64.le_refl _)]

theorem Owned.settled_header : Settled (index.Owned space) space index.header :=
  fun _ halike => header_of_alike ⟨halike.endian, fun _ _ h => halike.read _ _ (.inl h)⟩

section Search

variable {allowed place : Word → Nat → Prop} {table : Extent}

theorem keepsTo_pageEntry {n : Nat} (hn : n < header.pageCount.toNat)
    (hplace : Extent.LiesIn ⟨header.pages, 12, header.pageCount.toNat⟩ place) :
    KeepsTo allowed place space (index.pageEntry · header n) := by
  have hhas (offset : Nat) (h : offset + 4 ≤ 12) :
      place (element header.pages 12 n + UInt64.ofNat offset) 4 :=
    hplace _ _ (Extent.has_element hn offset h)
  unfold pageEntry
  rw [← add_ofNat_zero (element header.pages 12 n)]
  refine .taken (hhas 0 (by decide)) fun first _ => ?_
  exact .taken (hhas 4 (by decide)) fun page _ => .taken (hhas 8 (by decide)) fun _ _ => .const _

theorem keepsTo_regular {entries : Word} {count : Nat} {target stop : UInt32}
    (hplace : Extent.LiesIn ⟨entries, 8, count⟩ place) :
    KeepsTo allowed place space (regular · entries count target stop) := by
  have hoffset (n : Nat) (hn : n < count) :
      KeepsTo allowed place space (CompactError.load32 · (element entries 8 n)) :=
    keepsTo_load32 (hplace _ _ (Extent.has_front hn (by decide)))
  refine .bind (.search target hoffset) fun _ found hfound => ?_
  cases found with
  | none => exact .const _
  | some n =>
    obtain ⟨hn, -⟩ := Search.lastAtOrBefore_eq_some hfound
    refine .bind (hoffset n hn) fun _ first _ => ?_
    refine .bind (keepsTo_load32 (hplace _ _ (Extent.has_element hn 4 (by decide))))
      fun _ bits _ => ?_
    exact .ite (fun hnext => .bind (hoffset _ hnext) fun _ _ _ => .const _) fun _ => .const _

theorem keepsTo_numberedEncoding {encodings : Word} {count n : Nat}
    (hcommon : Extent.LiesIn ⟨header.encodings, 4, header.encodingCount.toNat⟩ place)
    (hown : Extent.LiesIn ⟨encodings, 4, count⟩ place) :
    KeepsTo allowed place space (numberedEncoding · header encodings count n) := by
  refine .ite (fun hn => ?_) fun _ => .ite (fun hn => ?_) fun _ => .const _
  · exact .bind (keepsTo_load32 (hcommon _ _ (Extent.has_front hn (by decide))))
      fun _ _ _ => .const _
  · exact .bind (keepsTo_load32 (hown _ _ (Extent.has_front hn (by decide)))) fun _ _ _ => .const _

theorem keepsTo_compressed {entries encodings : Word} {count encodingCount : Nat}
    {base target stop : UInt32}
    (hplace : Extent.LiesIn ⟨entries, 4, count⟩ place)
    (hnumbered : ∀ n, KeepsTo allowed place space
      (numberedEncoding · header encodings encodingCount n)) :
    KeepsTo allowed place space
      (compressed · header entries count encodings encodingCount base target stop) := by
  have hraw (n : Nat) (hn : n < count) :
      KeepsTo allowed place space (CompactError.load32 · (element entries 4 n)) :=
    keepsTo_load32 (hplace _ _ (Extent.has_front hn (by decide)))
  have hoffset (n : Nat) (hn : n < count) : KeepsTo allowed place space fun space =>
      (do return (← CompactError.load32 space (element entries 4 n)) &&& 0x00ffffff) :=
    .bind (hraw n hn) fun _ _ _ => .const _
  refine .bind (.search (target - base) hoffset) fun _ found hfound => ?_
  cases found with
  | none => exact .const _
  | some n =>
    obtain ⟨hn, -⟩ := Search.lastAtOrBefore_eq_some hfound
    refine .bind (hraw n hn) fun _ entry _ => .ite (fun hnext => ?_) fun _ => ?_
    · refine .bind (.map (hoffset _ hnext) _) fun _ stop _ => ?_
      exact .bind (hnumbered _) fun _ encoding _ => .const _
    · refine .bind (.const (.ok stop)) fun _ stop _ => ?_
      exact .bind (hnumbered _) fun _ encoding _ => .const _

theorem keepsTo_pageReading {current next : PageEntry} {target : UInt32}
    (hcommon : Extent.LiesIn ⟨header.encodings, 4, header.encodingCount.toNat⟩ place)
    (hpage : ∀ table ∈ pageTables space current.page, table.LiesIn place) :
    KeepsTo allowed place space
      ((pageReading header current next target).result · (.unbounded current.page)) := by
  have hhead {offset length : Nat} (h : offset + length ≤ 8) :
      place (current.page + UInt64.ofNat offset) length :=
    hpage _ List.mem_cons_self _ _ (Extent.has_single offset h)
  unfold Span.unbounded
  rw [← add_ofNat_zero current.page]
  refine .taken (hhead (by decide)) fun kind hkind => ?_
  refine .taken (hhead (by decide)) fun at' hat => .taken (hhead (by decide)) fun count hcount => ?_
  rw [add_ofNat_zero] at hkind
  replace hkind : space.get32 current.page = .ok kind := Outcome.mapError_eq_ok.mp hkind
  replace hat : space.get16 (current.page + 4) = .ok at' := Outcome.mapError_eq_ok.mp hat
  replace hcount : space.get16 (current.page + 6) = .ok count := Outcome.mapError_eq_ok.mp hcount
  split
  · have hentries : ⟨current.page + at'.toUInt64, 8, count.toNat⟩ ∈
        pageTables space current.page := by
      simp [pageTables, hkind, hat, hcount]
    simp only [result_fetch]
    exact keepsTo_regular (hpage _ hentries)
  · have hlonger : ⟨current.page, 12, 1⟩ ∈ pageTables space current.page := by
      simp [pageTables, hkind, hat, hcount]
    have hentries : ⟨current.page + at'.toUInt64, 4, count.toNat⟩ ∈
        pageTables space current.page := by
      simp [pageTables, hkind, hat, hcount]
    refine .taken (hpage _ hlonger _ _ (Extent.has_single _ (by decide))) fun own hown => ?_
    refine .taken (hpage _ hlonger _ _ (Extent.has_single _ (by decide))) fun ownCount hcount' => ?_
    replace hown : space.get16 (current.page + 8) = .ok own := Outcome.mapError_eq_ok.mp hown
    replace hcount' : space.get16 (current.page + 10) = .ok ownCount :=
      Outcome.mapError_eq_ok.mp hcount'
    have hencodings : ⟨current.page + own.toUInt64, 4, ownCount.toNat⟩ ∈
        pageTables space current.page := by
      simp [pageTables, hkind, hat, hcount, hown, hcount']
    simp only [result_fetch]
    exact keepsTo_compressed (hpage _ hentries)
      fun _ => keepsTo_numberedEncoding hcommon (hpage _ hencodings)
  · exact .const _

theorem keepsTo_lsda {current next : PageEntry} {first : UInt32}
    (hplace : Extent.LiesIn ⟨current.lsdas, 8, lsdaCount current next⟩ place) :
    KeepsTo allowed place space (index.lsda · current next first) := by
  have hkey (n : Nat) (hn : n < lsdaCount current next) :
      KeepsTo allowed place space (CompactError.load32 · (element current.lsdas 8 n)) :=
    keepsTo_load32 (hplace _ _ (Extent.has_front hn (by decide)))
  refine .bind (.search first hkey) fun hsettled found hfound => ?_
  cases found with
  | none => exact .const _
  | some n =>
    obtain ⟨hn, -⟩ := Search.lastAtOrBefore_eq_some hfound
    -- the search has asked for this key, so it is not what makes the search stray
    have hallowed : allowed (element current.lsdas 8 n) 4 := by
      by_contra houtside
      obtain ⟨other, halike, hfails⟩ := space.exists_alike allowed (.unmapped 0 0)
      have hother := (hsettled other halike).trans hfound
      obtain ⟨-, key, hloaded, -⟩ := Search.lastAtOrBefore_eq_some hother
      have hstrays : Strays allowed space
          (CompactError.load32 · (element current.lsdas 8 n)) _ 4 :=
        strays_loaded _ 4 UInt32.ofNat houtside
      have hmade := hstrays.made other halike _ (hfails _ _ houtside)
      cases hmade.symm.trans hloaded
    have hsame (other : AddressSpace) (halike : space.Alike allowed other) :
        CompactError.load32 other (element current.lsdas 8 n) =
          CompactError.load32 space (element current.lsdas 8 n) :=
      settled_loaded _ 4 UInt32.ofNat hallowed other halike
    have hanswer : KeepsTo allowed place space fun memory =>
        if (CompactError.load32 space (element current.lsdas 8 n)).toOption = some first then
          CompactError.load32 memory (element current.lsdas 8 n + 4) >>= fun offset =>
            .ok (index.imageBase + offset.toUInt64)
        else .error (.missingLsda (index.imageBase + first.toUInt64)) := by
      refine .ite (fun _ => .bind (keepsTo_load32 ?_) fun _ _ _ => .const _) fun _ => .const _
      exact hplace _ _ (Extent.has_element hn 4 (by decide))
    refine hanswer.congr fun other halike => ?_
    exact if_congr (Eq.congr (congrArg Except.toOption (hsame other halike)) rfl) rfl rfl

end Search

/-- A slot of a personality belongs to the index as soon as its entry in the table
lies in the section. -/
theorem keepsTo_personality {place : Word → Nat → Prop} (hheader : index.header space = .ok header)
    (hplace : Extent.LiesIn ⟨header.personalities, 4, header.personalityCount.toNat⟩ place)
    (n : Nat) :
    KeepsTo (index.Owned space) place space (index.personality · header n) := by
  refine .ite (fun _ => .const _) fun hn => .ite (fun _ => .const _) fun hcount => ?_
  have hin : n - 1 < header.personalityCount.toNat := by omega
  refine .bind (keepsTo_load32 (hplace _ _ (Extent.has_front hin (by decide))))
    fun hsettled offset hoffset => .map ?_ _
  have howned : index.Owned space (element header.personalities 4 (n - 1)) 4 := by
    by_contra houtside
    exact (strays_loaded _ 4 UInt32.ofNat houtside).not_settled hsettled
  have hinside := howned.resolve_right fun h => absurd h.1 (by decide)
  exact .inl (settled_loaded _ 8 UInt64.ofNat
    (.inr ⟨rfl, header, n - 1, offset, hheader, hin, hinside, hoffset, rfl⟩))

theorem tables_eq (h : index.header space = .ok header) :
    index.tables space = ⟨header.encodings, 4, header.encodingCount.toNat⟩ ::
      ⟨header.personalities, 4, header.personalityCount.toNat⟩ ::
      ⟨header.pages, 12, header.pageCount.toNat⟩ ::
      (List.range (header.pageCount.toNat - 1)).flatMap (index.numberedTables space header) := by
  unfold tables
  rw [h]

theorem mem_tables_of_page (h : index.header space = .ok header) {n : Nat}
    (hn : n < header.pageCount.toNat - 1) {current next : PageEntry}
    (hcurrent : index.pageEntry space header n = .ok current)
    (hnext : index.pageEntry space header (n + 1) = .ok next) {table : Extent}
    (hmem : table ∈ ⟨current.lsdas, 8, lsdaCount current next⟩ ::
      pageTables space current.page) : table ∈ index.tables space := by
  have hnumbered : table ∈ index.numberedTables space header n := by
    unfold numberedTables
    rw [hcurrent, hnext]
    exact hmem
  rw [tables_eq h]
  refine List.mem_cons_of_mem _ (List.mem_cons_of_mem _ (List.mem_cons_of_mem _ ?_))
  exact List.mem_flatMap.mpr ⟨n, List.mem_range.mpr hn, hnumbered⟩

theorem keepsTo_lookup (hheader : index.header space = .ok header) (target : UInt32) :
    KeepsTo (index.Owned space) (index.Tabled space) space (index.lookup · header target) := by
  have htabled {table : Extent} (h : table ∈ index.tables space) :
      table.LiesIn (index.Tabled space) := fun _ _ hhas => ⟨table, h, hhas⟩
  have htables := tables_eq hheader
  have hpages : ⟨header.pages, 12, header.pageCount.toNat⟩ ∈ index.tables space := by
    simp [htables]
  have hencodings : ⟨header.encodings, 4, header.encodingCount.toNat⟩ ∈ index.tables space := by
    simp [htables]
  have hpersonalities :
      ⟨header.personalities, 4, header.personalityCount.toNat⟩ ∈ index.tables space := by
    simp [htables]
  have hentry (n : Nat) (hn : n < header.pageCount.toNat) :
      KeepsTo (index.Owned space) (index.Tabled space) space (index.pageEntry · header n) :=
    keepsTo_pageEntry hn (htabled hpages)
  have hkey (n : Nat) (hn : n < header.pageCount.toNat - 1) :
      KeepsTo (index.Owned space) (index.Tabled space) space fun space =>
        (do return (← index.pageEntry space header n).functionOffset) :=
    .bind (hentry n (by omega)) fun _ _ _ => .const _
  refine .bind (.search target hkey) fun _ found hfound => ?_
  cases found with
  | none => exact .const _
  | some n =>
    obtain ⟨hn, -⟩ := Search.lastAtOrBefore_eq_some hfound
    refine .bind (hentry n (by omega)) fun _ current hcurrent => ?_
    refine .bind (hentry (n + 1) (by omega)) fun _ next hnext => ?_
    have hpage (table : Extent) (h : table ∈ ⟨current.lsdas, 8, lsdaCount current next⟩ ::
        pageTables space current.page) : table.LiesIn (index.Tabled space) :=
      htabled (mem_tables_of_page hheader hn hcurrent hnext h)
    refine .ite (fun _ => .const _) fun _ => ?_
    refine .bind (keepsTo_pageReading (htabled hencodings) fun table h =>
      hpage table (List.mem_cons_of_mem _ h)) fun _ described _ => ?_
    cases described with
    | none => exact .const _
    | some function =>
      refine .ite (fun _ => .const _) fun _ => ?_
      have hlsda : KeepsTo (index.Owned space) (index.Tabled space) space
          (index.lsda · current next function.first) := keepsTo_lsda (hpage _ List.mem_cons_self)
      have hpersonality := keepsTo_personality hheader (htabled hpersonalities)
        function.encoding.personality
      refine .ite (fun _ => .bind (.map hlsda _) fun _ lsda _ => ?_) fun _ =>
        .bind (.const _) fun _ lsda _ => ?_
      · exact .bind hpersonality fun _ _ _ => .const _
      · exact .bind hpersonality fun _ _ _ => .const _

theorem keepsTo_find (index : CompactIndex) (space : AddressSpace) (pc : Word) :
    KeepsTo (index.Owned space) (index.Tabled space) space (index.find · pc) := by
  refine .bind (.inl Owned.settled_header) fun _ header hheader => ?_
  cases index.target pc with
  | none => exact .const _
  | some target => exact .ite (fun _ => .const _) fun _ => keepsTo_lookup hheader target

/-- The section and its slots settle what is found, but for reads of elements that
lie behind the section. Only a table that runs past the end has such elements. -/
theorem find_settled_iff (index : CompactIndex) (space : AddressSpace) (pc : Word) :
    (∀ other, space.Alike index.Inside other → index.header other = index.header space) ∧
      (Settled (index.Owned space) space (index.find · pc) ↔
        ∀ table ∈ index.tables space, ∀ address count, table.Has address count →
          ¬ Strays (index.Owned space) space (index.find · pc) address count) ∧
      ((∀ table ∈ index.tables space, table.LiesIn index.Inside) →
        Settled (index.Owned space) space (index.find · pc)) := by
  have hiff : Settled (index.Owned space) space (index.find · pc) ↔
      ∀ table ∈ index.tables space, ∀ address count, table.Has address count →
        ¬ Strays (index.Owned space) space (index.find · pc) address count := by
    rw [(keepsTo_find index space pc).settled_iff]
    constructor
    · exact fun h table htable address count hhas => h address count ⟨table, htable, hhas⟩
    · rintro h address count ⟨table, htable, hhas⟩
      exact h table htable address count hhas
  refine ⟨fun _ => header_of_alike, hiff, fun hinside => hiff.mpr ?_⟩
  intro table htable address count hhas hstrays
  exact hstrays.outside (.inl (hinside table htable address count hhas))

theorem Extent.liesIn_inside {table : Extent} (hfits : index.Fits)
    (hstart : index.address ≤ table.start)
    (hend : table.start.toNat + table.count * table.size ≤
      index.address.toNat + index.length.toNat) : table.LiesIn index.Inside := by
  rintro address length ⟨n, hn, offset, hoffset, rfl⟩
  have hwithin : n * table.size + offset + length ≤ table.count * table.size := by
    have hnext := Nat.mul_le_mul_right table.size (Nat.succ_le_of_lt hn)
    rw [Nat.succ_mul] at hnext
    omega
  have hsize : table.start.toNat + (n * table.size + offset) < UInt64.size := by
    unfold Fits at hfits
    omega
  have hplace := Reading.toNat_add_ofNat hsize
  rw [UInt64.ofNat_add, ← UInt64.add_assoc] at hplace
  unfold Inside element
  rw [UInt64.le_iff_toNat_le, hplace]
  rw [UInt64.le_iff_toNat_le] at hstart
  omega

theorem find_settled_iff_twoPages :
    (∀ table ∈ twoPagesIndex.tables twoPagesMemory.space, table.LiesIn twoPagesIndex.Inside) ∧
      ∀ pc, Settled (twoPagesIndex.Owned twoPagesMemory.space) twoPagesMemory.space
        (twoPagesIndex.find · pc) := by
  have hfits : twoPagesIndex.Fits := twoPages_stored.fits
  have hbounds : ∀ table ∈ twoPagesIndex.tables twoPagesMemory.space,
      twoPagesIndex.address ≤ table.start ∧ table.start.toNat + table.count * table.size ≤
        twoPagesIndex.address.toNat + twoPagesIndex.length.toNat := by
    decide +kernel
  have hinside : ∀ table ∈ twoPagesIndex.tables twoPagesMemory.space,
      table.LiesIn twoPagesIndex.Inside := by
    intro table htable
    obtain ⟨hstart, hend⟩ := hbounds table htable
    exact Extent.liesIn_inside hfits hstart hend
  exact ⟨hinside, fun pc => (find_settled_iff twoPagesIndex twoPagesMemory.space pc).2.2 hinside⟩

/-- The index without the language data of its last function. -/
def cutIndex : CompactIndex := { twoPagesIndex with length := 112 }

/-- The same memory with another place for that language data. -/
def movedMemory : Snapshot :=
  { twoPagesMemory with regions := ⟨0x100008074, [0, 0x70, 0, 0]⟩ :: twoPagesMemory.regions }

/-- The language data comes from what is mapped behind the section. -/
theorem find_cut_unsettled :
    twoPagesMemory.space.Alike (cutIndex.Owned twoPagesMemory.space) movedMemory.space ∧
      (∀ address count, (movedMemory.read address count).isOk =
        (twoPagesMemory.read address count).isOk) ∧
      (cutIndex.find twoPagesMemory.space 0x100002fff).map (·.map (·.lsda)) =
        .ok (some (some 0x100006000)) ∧
      (cutIndex.find movedMemory.space 0x100002fff).map (·.map (·.lsda)) =
        .ok (some (some 0x100007000)) := by
  have hbase : (0x100008074 : Word).toNat = 0x100008074 := rfl
  refine ⟨⟨rfl, fun address count howned => ?_⟩, fun address count => ?_, ?_, ?_⟩
  · refine Snapshot.read_of_not_holds fun hholds => ?_
    obtain ⟨hfrom, hto, -⟩ := hholds
    replace hfrom : (0x100008074 : Word).toNat ≤ address.toNat := UInt64.le_iff_toNat_le.mp hfrom
    replace hto : address.toNat + count ≤ (0x100008074 : Word).toNat + 4 := hto
    rcases howned with ⟨-, hinside⟩ | ⟨rfl, -⟩
    · change address.toNat + count ≤ 0x100008070 at hinside
      omega
    · omega
  · by_cases hholds : Region.Holds ⟨0x100008074, [0, 0x70, 0, 0]⟩ address count
    · obtain ⟨hfrom, hto, -⟩ := id hholds
      replace hfrom : (0x100008074 : Word).toNat ≤ address.toNat := UInt64.le_iff_toNat_le.mp hfrom
      replace hto : address.toNat + count ≤ (0x100008074 : Word).toNat + 4 := hto
      obtain ⟨region, regions, hregions, hstart, hlength⟩ : ∃ region regions,
          twoPagesMemory = ⟨.little, region :: regions⟩ ∧ region.base.toNat = 0x100008000 ∧
            region.bytes.length = 120 := ⟨_, _, rfl, rfl, rfl⟩
      have hsection : region.Holds address count := by
        refine ⟨UInt64.le_iff_toNat_le.mpr ?_, ?_, ?_⟩
        · omega
        · omega
        · rw [hstart, hlength]
          decide
      have hmoved : (movedMemory.read address count).isOk = true :=
        congrArg Except.isOk (Snapshot.read_of_holds hholds)
      have hplain : (twoPagesMemory.read address count).isOk = true := by
        rw [hregions]
        exact congrArg Except.isOk (Snapshot.read_of_holds hsection)
      exact hmoved.trans hplain.symm
    · exact congrArg Except.isOk (Snapshot.read_of_not_holds hholds)
  · decide +kernel
  · decide +kernel

end CompactIndex

end Unwinding
