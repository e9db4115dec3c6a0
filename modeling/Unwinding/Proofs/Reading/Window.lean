import Unwinding.Memory.Snapshot
import Unwinding.Proofs.Reading.Confined
import Unwinding.Proofs.Reading.Failure
import Unwinding.Proofs.Reading.Stored

/-!
# The window of a reader

A reader is asked for one value after another, and goes on after a failure from where it
left off. Whatever it is asked for, it never goes back and never beyond its limit, and all
that it fetches lies in the window between where it started and the limit. One request can
look elsewhere: a pointer that is stored indirectly is loaded from where the stored value
leads. Without such requests, the answers depend on nothing but the window.
-/

namespace Unwinding

namespace Reading

variable {α β : Type} {count : Nat}

/-- The decoder takes `count` bytes. Beyond the limit it fails where it stands; otherwise it
moves behind the bytes, and if it fails then, the memory has failed it. -/
structure Takes (read : Reading MemoryError α) (count : Nat) : Prop where
  beyond : ∀ space (span : Span), span.limit.toNat < span.pos.toNat + count →
    read space span = .error (.pastLimit span.pos count span.limit) span
  within : ∀ space (span : Span), span.pos.toNat + count ≤ span.limit.toNat →
    rest (read space span) = span.after count
  failed : ∀ space (span later : Span) error, span.pos.toNat + count ≤ span.limit.toNat →
    read space span = .error error later → space.read span.pos count = .error error

theorem Takes.passed {read : Reading MemoryError α} (h : read.Takes count) {space : AddressSpace}
    {span later : Span} {error : MemoryError} (hlimit : span.pos.toNat + count ≤ span.limit.toNat)
    (herror : read space span = .error error later) :
    space.read span.pos count = .error error ∧ later = span.after count := by
  have hrest := h.within space span hlimit
  rw [herror] at hrest
  exact ⟨h.failed space span later error hlimit herror, hrest⟩

theorem takes_number (count : Nat) (wrap : Nat → α) :
    Takes (take count >>= fun address => fetch fun space => (space.number address count).map wrap)
      count where
  beyond space span h := by
    rw [take_apply, if_neg (Nat.not_le.mpr h)]
  within space span h := by
    rw [take_apply, if_pos h, rest_fetch]
    rfl
  failed space span later error h herror := by
    rw [take_apply, if_pos h] at herror
    exact Outcome.map_eq_error.mp (Outcome.map_eq_error.mp (fetch_eq_error.mp herror).1)

theorem takes_skip (count : Nat) : Takes (skip count) count where
  beyond space span h := bind_eq_error.mpr (.inl (take_error h))
  within space span h := by
    unfold skip
    rw [bind_of_ok (take_ok h)]
    rfl
  failed space span later error h herror := by
    unfold skip at herror
    rw [bind_of_ok (take_ok h)] at herror
    cases herror

theorem Takes.map {read : Reading MemoryError α} (h : read.Takes count) (f : α → β) :
    Takes (do return f (← read)) count where
  beyond space span hlimit := bind_eq_error.mpr (.inl (h.beyond space span hlimit))
  within space span hlimit := by
    rw [← h.within space span hlimit, bind_apply]
    cases read space span <;> rfl
  failed space span later error hlimit herror := by
    rcases bind_eq_error.mp herror with herror | ⟨a, middle, -, herror⟩
    · exact h.failed space span later error hlimit herror
    · cases herror

/-- What a reader can be asked for. -/
inductive Request where
  | u8
  | u16
  | u32
  | u64
  | i8
  | i16
  | i32
  | i64
  | pointer
  | uleb128
  | sleb128
  | encodedPointer (encoding : Encoding) (bases : Bases)
  | skip (count : Nat)
  deriving Repr, DecidableEq

namespace Request

def Answer : Request → Type
  | u8 => UInt8
  | u16 => UInt16
  | u32 => UInt32
  | u64 | pointer | uleb128 | encodedPointer .. => UInt64
  | i8 => Int8
  | i16 => Int16
  | i32 => Int32
  | i64 | sleb128 => Int64
  | skip _ => Unit

def read : (request : Request) → Reading MemoryError request.Answer
  | u8 => Reading.u8
  | u16 => Reading.u16
  | u32 => Reading.u32
  | u64 => Reading.u64
  | i8 => Reading.i8
  | i16 => Reading.i16
  | i32 => Reading.i32
  | i64 => Reading.i64
  | pointer => Reading.pointer
  | uleb128 => Reading.uleb128
  | sleb128 => Reading.sleb128
  | encodedPointer encoding bases => Reading.encodedPointer encoding bases
  | skip count => Reading.skip count

/-- How many bytes the request takes, if that does not depend on what they are. -/
def width? : Request → Option Nat
  | u8 | i8 => some 1
  | u16 | i16 => some 2
  | u32 | i32 => some 4
  | u64 | i64 | pointer => some 8
  | skip count => some count
  | uleb128 | sleb128 | encodedPointer .. => none

def isIndirect : Request → Bool
  | encodedPointer encoding _ => encoding.isIndirect
  | _ => false

variable {request : Request} {space other : AddressSpace} {span : Span}

theorem takes_read {count : Nat} (h : request.width? = some count) : request.read.Takes count := by
  cases request <;> cases h
  case u8 => exact takes_number 1 UInt8.ofNat
  case u16 => exact takes_number 2 UInt16.ofNat
  case u32 => exact takes_number 4 UInt32.ofNat
  case u64 => exact takes_number 8 UInt64.ofNat
  case i8 => exact (takes_number 1 UInt8.ofNat).map _
  case i16 => exact (takes_number 2 UInt16.ofNat).map _
  case i32 => exact (takes_number 4 UInt32.ofNat).map _
  case i64 => exact (takes_number 8 UInt64.ofNat).map _
  case pointer => exact takes_number 8 UInt64.ofNat
  case skip => exact takes_skip _

theorem confined_read (h : request.isIndirect = false) : request.read.Confined := by
  cases request with
  | u8 => exact confined_u8
  | u16 => exact confined_u16
  | u32 => exact confined_u32
  | u64 => exact confined_u64
  | i8 => exact confined_u8.map _
  | i16 => exact confined_u16.map _
  | i32 => exact confined_u32.map _
  | i64 => exact confined_u64.map _
  | pointer => exact confined_pointer
  | uleb128 => exact confined_uleb128
  | sleb128 => exact confined_sleb128
  | encodedPointer encoding bases => exact confined_encodedPointer bases h
  | skip count => exact confined_skip count

/-! ## What a request reads -/

/-- The request is for a pointer that is loaded from `address`. -/
def LoadsFrom (space : AddressSpace) (span : Span) (request : Request) (address : Word) : Prop :=
  ∃ encoding bases rest, request = encodedPointer encoding bases ∧ encoding.isIndirect = true ∧
    unloaded encoding bases space span = .ok address rest

/-- The request makes this read: in whichever way the read fails, the request does. -/
def Fetches (space : AddressSpace) (span : Span) (request : Request) (address : Word)
    (count : Nat) : Prop :=
  ∀ other error, space.Alike (fun a n => ¬ (a = address ∧ n = count)) other →
    other.read address count = .error error → ∃ later, request.read other span = .error error later

theorem leaves_read (request : Request) (space : AddressSpace) (h : span.pos ≤ span.limit) :
    span.Leaves (rest (request.read space span)) := by
  cases hindirect : request.isIndirect with
  | false => exact (confined_read hindirect).leaves space span h
  | true =>
    cases request <;> try cases hindirect
    case encodedPointer encoding bases => exact leaves_encodedPointer encoding bases space h

theorem read_of_alike (hspan : span.pos ≤ span.limit) (halike : space.Alike span.Covers other)
    (hload : ∀ address, LoadsFrom space span request address →
      other.pointer address = space.pointer address) :
    request.read other span = request.read space span := by
  cases hindirect : request.isIndirect with
  | false => exact (confined_read hindirect).of_alike hspan halike
  | true =>
    cases request <;> try cases hindirect
    case encodedPointer encoding bases =>
      exact encodedPointer_of_alike hspan halike fun target rest htarget =>
        hload target ⟨encoding, bases, rest, rfl, hindirect, htarget⟩

/-- What is read for a request lies in the span, but for the word that it is loaded from. -/
theorem fetches_within (hspan : span.pos ≤ span.limit) {address : Word} {count : Nat}
    (h : Fetches space span request address count) :
    span.Covers address count ∨ count = 8 ∧ LoadsFrom space span request address := by
  refine Classical.byContradiction fun houtside => ?_
  rw [not_or] at houtside
  -- a read elsewhere could fail in two ways, and the request would have to fail in both
  have hfails (error : MemoryError) : ∃ later, request.read space span = .error error later := by
    obtain ⟨other, halike, hread⟩ :=
      space.exists_alike (fun a n => ¬ (a = address ∧ n = count)) error
    obtain ⟨later, herror⟩ := h other error halike (hread address count (not_not_intro ⟨rfl, rfl⟩))
    refine ⟨later, (read_of_alike hspan (halike.mono ?_) fun target hloads => ?_) ▸ herror⟩
    · rintro a n hcovers ⟨rfl, rfl⟩
      exact houtside.1 hcovers
    · refine congrArg _ (number_congr target halike.endian (halike.read target 8 ?_))
      rintro ⟨rfl, rfl⟩
      exact houtside.2 ⟨rfl, hloads⟩
  obtain ⟨_, hunsupported⟩ := hfails (.unsupportedEncoding 0)
  obtain ⟨_, hmissing⟩ := hfails (.missingBase 0)
  cases hunsupported.symm.trans hmissing

/-- The word that a pointer is loaded from is fetched, also where the span does not reach. -/
theorem LoadsFrom.fetches (hspan : span.pos ≤ span.limit) {address : Word}
    (h : LoadsFrom space span request address) (houtside : ¬ span.Covers address 8) :
    Fetches space span request address 8 := by
  obtain ⟨encoding, bases, rest, rfl, hindirect, htarget⟩ := h
  intro other error halike herror
  have hcovered : space.Alike span.Covers other := by
    refine halike.mono fun a n hcovers => ?_
    rintro ⟨rfl, rfl⟩
    exact houtside hcovers
  have hload : other.pointer address = .error error := by
    unfold AddressSpace.pointer AddressSpace.get64 AddressSpace.number
    rw [herror]
    rfl
  have hsame := (confined_unloaded encoding bases).of_alike hspan hcovered
  refine ⟨rest, ?_⟩
  change Reading.encodedPointer encoding bases other span = _
  rw [encodedPointer_eq, bind_of_ok (hsame.trans htarget), if_pos hindirect]
  exact fetch_eq_error.mpr ⟨hload, rfl⟩

/-! ## Requests in turn -/

/-- What the reader makes of requests, one after another, and what it leaves each time. -/
def transcript (space : AddressSpace) :
    List Request → Span →
      List ((request : Request) × EStateM.Result MemoryError Span request.Answer)
  | [], _ => []
  | request :: requests, span =>
    ⟨request, request.read space span⟩ :: transcript space requests (rest (request.read space span))

/-- Where the reader stands after the requests, failed ones included. -/
def after (space : AddressSpace) (requests : List Request) (span : Span) : Span :=
  requests.foldl (fun span request => rest (request.read space span)) span

theorem after_append (requests more : List Request) (span : Span) :
    after space (requests ++ more) span = after space more (after space requests span) :=
  List.foldl_append

theorem leaves_after (space : AddressSpace) (requests : List Request) (h : span.pos ≤ span.limit) :
    span.Leaves (after space requests span) := by
  induction requests generalizing span with
  | nil => exact .refl h
  | cons request requests ih =>
    have hfirst := leaves_read request space h
    exact hfirst.trans (ih (hfirst.limit ▸ hfirst.inside))

/-- The reads that requests may make: of what is in the window, and of the words that
indirect pointers are loaded from. -/
inductive MayRead (space : AddressSpace) (span : Span) (requests : List Request) :
    Word → Nat → Prop
  | covered {address : Word} {count : Nat} :
      span.Covers address count → MayRead space span requests address count
  | loaded (before later : List Request) {request : Request} {address : Word} :
      requests = before ++ request :: later →
      LoadsFrom space (after space before span) request address →
      MayRead space span requests address 8

theorem transcript_of_alike {requests : List Request} (hspan : span.pos ≤ span.limit)
    (halike : space.Alike (MayRead space span requests) other) :
    transcript other requests span = transcript space requests span := by
  induction requests generalizing span with
  | nil => rfl
  | cons request requests ih =>
    have hfirst : request.read other span = request.read space span := by
      refine read_of_alike hspan (halike.mono fun _ _ => .covered) fun address hloads => ?_
      exact congrArg _ (number_congr address halike.endian
        (halike.read address 8 (.loaded [] requests rfl hloads)))
    have hleaves := leaves_read request space hspan
    have hrest := ih (hleaves.limit ▸ hleaves.inside) (halike.mono fun address count hread => by
      cases hread with
      | covered hcovers => exact .covered (hleaves.covers hcovers)
      | loaded before later hsplit hloads =>
        exact .loaded (request :: before) later (congrArg (request :: ·) hsplit) hloads)
    rw [transcript, transcript, hfirst, hrest]

end Request

/-- A reader keeps to its window. -/
structure Contained (space : AddressSpace) (span : Span) : Prop where
  /-- It never goes back, and never beyond the limit. -/
  leaves : ∀ requests more, (Request.after space requests span).Leaves
    (Request.after space (requests ++ more) span)
  fixed : ∀ request count, Request.width? request = some count → request.read.Takes count
  /-- The failures of its own are those at the limit: a request for a number of bytes that
  leads beyond it does not move the reader. -/
  pastLimit : ∀ requests request count, Request.width? request = some count →
    span.limit.toNat < (Request.after space requests span).pos.toNat + count →
      request.read space (Request.after space requests span) =
        .error (.pastLimit (Request.after space requests span).pos count span.limit)
          (Request.after space requests span)
  /-- Any other failure of such a request is the memory's, passed on from behind the bytes. -/
  passed : ∀ requests request count error later, Request.width? request = some count →
    (Request.after space requests span).pos.toNat + count ≤ span.limit.toNat →
      request.read space (Request.after space requests span) = .error error later →
        space.read (Request.after space requests span).pos count = .error error ∧
          later = (Request.after space requests span).after count
  fetches : ∀ requests request address count,
    Request.Fetches space (Request.after space requests span) request address count →
      span.Covers address count ∨
        count = 8 ∧ Request.LoadsFrom space (Request.after space requests span) request address
  /-- What requests come to depends on nothing but what they may read, -/
  reads : ∀ other requests, space.Alike (Request.MayRead space span requests) other →
    Request.transcript other requests span = Request.transcript space requests span
  /-- and that is the window if no pointer is stored indirectly. -/
  window : ∀ other requests, (∀ request ∈ requests, Request.isIndirect request = false) →
    space.Alike span.Covers other →
      Request.transcript other requests span = Request.transcript space requests span

theorem contained (space : AddressSpace) {span : Span} (h : span.pos ≤ span.limit) :
    Contained space span where
  leaves requests more := by
    have hfirst := Request.leaves_after space requests h
    rw [Request.after_append]
    exact Request.leaves_after space more (hfirst.limit ▸ hfirst.inside)
  fixed _ _ := Request.takes_read
  pastLimit requests request count hwidth hbeyond := by
    have hlimit := (Request.leaves_after space requests h).limit
    have hfails := (Request.takes_read hwidth).beyond space (Request.after space requests span)
    rw [hlimit] at hfails
    exact hfails hbeyond
  passed requests request count error later hwidth hwithin := by
    have hlimit := (Request.leaves_after space requests h).limit
    exact (Request.takes_read hwidth).passed (hlimit ▸ hwithin)
  fetches requests request address count hfetches := by
    have hfirst := Request.leaves_after space requests h
    exact (Request.fetches_within (hfirst.limit ▸ hfirst.inside) hfetches).imp_left hfirst.covers
  reads _ _ := Request.transcript_of_alike h
  window other requests hdirect halike := by
    refine Request.transcript_of_alike h (halike.mono fun address count hread => ?_)
    cases hread with
    | covered hcovers => exact hcovers
    | loaded before later hsplit hloads =>
      obtain ⟨encoding, bases, rest, rfl, hindirect, -⟩ := hloads
      have hmem := hsplit ▸ List.mem_append_right _ List.mem_cons_self
      cases (hdirect _ hmem).symm.trans hindirect

/-- A byte, and the address of a word in front of it. -/
def outlying : Snapshot where
  endian := .little
  regions := [⟨0x1000, [0x2a, 0xf0, 0x0f, 0x00, 0x00]⟩, ⟨0xff0, [1, 2, 3, 4, 5, 6, 7, 8]⟩]

/-- The word is the one that a reader of the field fetches outside its window. -/
theorem contained_outlying :
    Contained outlying.space ⟨0x1000, 0x1005⟩ ∧
      Request.Fetches outlying.space (Request.after outlying.space [.u8] ⟨0x1000, 0x1005⟩)
        (.encodedPointer ⟨0x83⟩ .unknown) 0xff0 8 ∧
      ¬ (⟨0x1000, 0x1005⟩ : Span).Covers 0xff0 8 := by
  have hafter : Request.after outlying.space [.u8] ⟨0x1000, 0x1005⟩ = ⟨0x1001, 0x1005⟩ := by
    decide +kernel
  have hloads : Request.LoadsFrom outlying.space ⟨0x1001, 0x1005⟩
      (.encodedPointer ⟨0x83⟩ .unknown) 0xff0 := ⟨_, _, ⟨0x1005, 0x1005⟩, rfl, by decide, rfl⟩
  refine ⟨contained outlying.space (by decide), ?_, by unfold Span.Covers; decide⟩
  rw [hafter]
  exact hloads.fetches (by decide) (by unfold Span.Covers; decide)

/-- A memory that is confined itself, and says so in the words of a reader. -/
def walled : AddressSpace where
  endian := .little
  read address count := .error (.pastLimit address count 0x1000)

/-- The bytes of the first region, captured in two. -/
def parted : Snapshot where
  endian := .little
  regions := [⟨0x1000, [0x2a, 0xf0]⟩, ⟨0x1002, [0x0f, 0x00, 0x00]⟩]

/-- A `PastLimit` that the memory answers with leaves the reader behind the bytes; and two
memories with the same bytes in the window, each of which can be read in both, need not serve
the same reads. -/
theorem walled_and_parted :
    u32 walled ⟨0x1000, 0x1005⟩ = .error (.pastLimit 0x1000 4 0x1000) ⟨0x1004, 0x1005⟩ ∧
      (∀ offset : Fin 5, parted.space.get8 (0x1000 + UInt64.ofNat offset) =
        outlying.space.get8 (0x1000 + UInt64.ofNat offset) ∧
          (outlying.space.get8 (0x1000 + UInt64.ofNat offset)).toOption.isSome = true) ∧
      u32 outlying.space ⟨0x1000, 0x1005⟩ = .ok 0x000ff02a ⟨0x1004, 0x1005⟩ ∧
      u32 parted.space ⟨0x1000, 0x1005⟩ = .error (.unmapped 0x1000 4) ⟨0x1004, 0x1005⟩ :=
  ⟨rfl, by decide +kernel, rfl, rfl⟩

end Reading

end Unwinding
