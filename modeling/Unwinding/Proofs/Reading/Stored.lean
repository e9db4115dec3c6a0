import Unwinding.Memory.Lemmas
import Unwinding.Memory.Snapshot
import Unwinding.Proofs.Reading.Success

/-!
# Reading what is stored

A memory stores a list of bytes at an address if it delivers every part of the
list. A span begins with the list if the bytes lie within the span. A decoder
for a field is then given by what it makes of a span that begins with the field:
the value, and the span behind it. Fields that are stored one behind another are
read one after another.
-/

namespace Unwinding

/-- Every part of the bytes can be read where it lies. -/
def AddressSpace.Stores (space : AddressSpace) (address : Word) (bytes : List UInt8) : Prop :=
  ∀ offset count, offset + count ≤ bytes.length →
    space.read (address + UInt64.ofNat offset) count = .ok ((bytes.drop offset).take count)

namespace AddressSpace.Stores

variable {space : AddressSpace} {address : Word} {bytes front behind : List UInt8}

theorem left (h : space.Stores address (front ++ behind)) : space.Stores address front := by
  intro offset count hcount
  rw [h offset count (by rw [List.length_append]; omega), List.drop_append_of_le_length (by omega),
    List.take_append_of_le_length (by rw [List.length_drop]; omega)]

theorem right (h : space.Stores address (front ++ behind)) :
    space.Stores (address + UInt64.ofNat front.length) behind := by
  intro offset count hcount
  rw [UInt64.add_assoc, ← UInt64.ofNat_add,
    h (front.length + offset) count (by rw [List.length_append]; omega),
    List.drop_length_add_append]

theorem read (h : space.Stores address bytes) : space.read address bytes.length = .ok bytes := by
  have hzero : address + UInt64.ofNat 0 = address := UInt64.add_zero address
  have hread := h 0 bytes.length (by omega)
  rw [List.drop_zero, List.take_length, hzero] at hread
  exact hread

theorem number {count n : Nat} (h : space.Stores address (space.endian.encode count n)) :
    space.number address count = .ok (n % 256 ^ count) := by
  have hread := h.read
  rw [Endian.encode_length] at hread
  unfold AddressSpace.number
  rw [hread, ← Endian.decode_encode space.endian count n]
  rfl

theorem get8 {byte : UInt8} (h : space.Stores address [byte]) :
    space.get8 address = .ok byte := by
  have hread : space.read address 1 = .ok [byte] := h.read
  have hdecode : space.endian.decode [byte] = byte.toNat := by
    cases space.endian <;> simp [Endian.decode, Bytes.toNat]
  unfold AddressSpace.get8 AddressSpace.number
  rw [hread]
  change Except.ok (UInt8.ofNat (space.endian.decode [byte])) = _
  rw [hdecode, UInt8.ofNat_toNat]

end AddressSpace.Stores

theorem Snapshot.read_of_holds {endian : Endian} {region : Region} {regions : List Region}
    {address : Word} {count : Nat} (h : region.Holds address count) :
    Snapshot.read ⟨endian, region :: regions⟩ address count =
      .ok (region.slice address count) := by
  have hserver : Snapshot.server ⟨endian, region :: regions⟩ address count = some region :=
    List.find?_cons_of_pos (decide_eq_true h)
  unfold Snapshot.read
  rw [hserver]

theorem Snapshot.read_of_not_holds {endian : Endian} {region : Region} {regions : List Region}
    {address : Word} {count : Nat} (h : ¬ region.Holds address count) :
    Snapshot.read ⟨endian, region :: regions⟩ address count =
      Snapshot.read ⟨endian, regions⟩ address count := by
  have hserver : Snapshot.server ⟨endian, region :: regions⟩ address count =
      Snapshot.server ⟨endian, regions⟩ address count :=
    List.find?_cons_of_neg (by rwa [decide_eq_true_eq])
  unfold Snapshot.read
  rw [hserver]

theorem Snapshot.stores_region (endian : Endian) (region : Region) (regions : List Region)
    (hfits : region.base.toNat + region.bytes.length < UInt64.size) :
    (Snapshot.space ⟨endian, region :: regions⟩).Stores region.base region.bytes := by
  intro offset count hcount
  have haddress : (region.base + UInt64.ofNat offset).toNat = region.base.toNat + offset :=
    Reading.toNat_add_ofNat (by omega)
  have hoffset : (region.base + UInt64.ofNat offset - region.base).toNat = offset := by
    rw [UInt64.add_comm, UInt64.add_sub_cancel, UInt64.toNat_ofNat_of_lt' (by omega)]
  have hholds : region.Holds (region.base + UInt64.ofNat offset) count := by
    refine ⟨UInt64.le_iff_toNat_le.mpr ?_, ?_, hfits⟩ <;> omega
  refine (Snapshot.read_of_holds hholds).trans ?_
  exact congrArg (fun start => Except.ok ((region.bytes.drop start).take count)) hoffset

namespace Span

/-- The span without its first `count` bytes. -/
def after (span : Span) (count : Nat) : Span := ⟨span.pos + UInt64.ofNat count, span.limit⟩

theorem after_zero (span : Span) : span.after 0 = span :=
  congrArg (Span.mk · span.limit) (UInt64.add_zero span.pos)

theorem after_after (span : Span) (m n : Nat) : (span.after m).after n = span.after (m + n) := by
  unfold after
  rw [UInt64.add_assoc, ← UInt64.ofNat_add]

/-- The first bytes of the span are these. -/
structure Begins (span : Span) (space : AddressSpace) (bytes : List UInt8) : Prop where
  stored : space.Stores span.pos bytes
  room : span.pos.toNat + bytes.length ≤ span.limit.toNat

variable {span : Span} {space : AddressSpace} {front behind : List UInt8}

theorem Begins.left (h : span.Begins space (front ++ behind)) : span.Begins space front where
  stored := h.stored.left
  room := by
    have hroom := h.room
    rw [List.length_append] at hroom
    omega

theorem Begins.right (h : span.Begins space (front ++ behind)) :
    (span.after front.length).Begins space behind where
  stored := h.stored.right
  room := by
    have hroom := h.room
    rw [List.length_append] at hroom
    change (span.pos + UInt64.ofNat front.length).toNat + behind.length ≤ span.limit.toNat
    rw [Reading.pos_take (by omega)]
    omega

end Span

namespace Reading

variable {ε α β : Type} {space : AddressSpace} {span : Span}

section Fixed

variable {bytes : List UInt8}

theorem taken_of_begins {count : Nat} {f : Word → AddressSpace → Except MemoryError α} {a : α}
    (h : span.Begins space bytes) (hcount : bytes.length = count) (hf : f span.pos space = .ok a) :
    (take count >>= fun address => fetch (f address)) space span = .ok a (span.after count) :=
  (taken_eq_ok count).mpr ⟨hcount ▸ h.room, hf, rfl⟩

theorem u8_of_begins {byte : UInt8} (h : span.Begins space [byte]) :
    u8 space span = .ok byte (span.after 1) := taken_of_begins h rfl h.stored.get8

theorem u32_of_begins {n : Nat} (h : span.Begins space (space.endian.encode 4 n)) :
    u32 space span = .ok (UInt32.ofNat n) (span.after 4) := by
  refine taken_of_begins h (Endian.encode_length _ _ _) ?_
  rw [AddressSpace.get32, h.stored.number]
  exact congrArg Except.ok UInt32.ofNat_mod_size

theorem u64_of_begins {n : Nat} (h : span.Begins space (space.endian.encode 8 n)) :
    u64 space span = .ok (UInt64.ofNat n) (span.after 8) := by
  refine taken_of_begins h (Endian.encode_length _ _ _) ?_
  rw [AddressSpace.get64, h.stored.number]
  exact congrArg Except.ok UInt64.ofNat_mod_size

end Fixed

end Reading

namespace Span

/-- The span goes on with these bytes: each of them can be read by itself, and all of
them lie before the limit. -/
structure Offers (span : Span) (space : AddressSpace) (bytes : List UInt8) : Prop where
  each : ∀ i byte, bytes[i]? = some byte → space.get8 (span.pos + UInt64.ofNat i) = .ok byte
  room : span.pos.toNat + bytes.length ≤ span.limit.toNat

variable {span : Span} {space : AddressSpace} {byte : UInt8} {bytes : List UInt8}

theorem offers_cons : span.Offers space (byte :: bytes) ↔
    Reading.u8 space span = .ok byte (span.after 1) ∧ (span.after 1).Offers space bytes := by
  have hmoved (i : Nat) : (span.after 1).pos + UInt64.ofNat i =
      span.pos + UInt64.ofNat (i + 1) := by
    unfold after
    rw [UInt64.add_assoc, ← UInt64.ofNat_add, Nat.add_comm]
  have hzero : span.pos + UInt64.ofNat 0 = span.pos := UInt64.add_zero span.pos
  constructor
  · intro h
    have hroom := h.room
    rw [List.length_cons] at hroom
    have hpos : (span.after 1).pos.toNat = span.pos.toNat + 1 := Reading.pos_take (by omega)
    constructor
    · have hget := h.each 0 byte rfl
      rw [hzero] at hget
      exact Reading.u8_eq_ok.mpr ⟨by omega, hget, rfl⟩
    · constructor
      · intro i later hlater
        rw [hmoved]
        exact h.each (i + 1) later hlater
      · change (span.after 1).pos.toNat + bytes.length ≤ span.limit.toNat
        omega
  · intro h
    obtain ⟨hroom, hget, -⟩ := Reading.u8_eq_ok.mp h.1
    have hpos : (span.after 1).pos.toNat = span.pos.toNat + 1 := Reading.pos_take hroom
    have hbehind : (span.after 1).pos.toNat + bytes.length ≤ span.limit.toNat := h.2.room
    constructor
    · intro i later hlater
      cases i with
      | zero =>
        cases hlater
        rw [hzero]
        exact hget
      | succ i =>
        rw [← hmoved]
        exact h.2.each i later hlater
    · rw [List.length_cons]
      omega

theorem offers_nil (h : span.pos.toNat ≤ span.limit.toNat) : span.Offers space [] where
  each _ _ hbyte := nomatch hbyte
  room := h

theorem offers_single (h : Reading.u8 space span = .ok byte (span.after 1)) :
    span.Offers space [byte] := by
  have hroom := (Reading.u8_eq_ok.mp h).1
  have hpos : (span.after 1).pos.toNat = span.pos.toNat + 1 := Reading.pos_take hroom
  exact offers_cons.mpr ⟨h, offers_nil (Nat.le_trans (Nat.le_of_eq hpos) hroom)⟩

theorem Offers.length_le (h : span.Offers space bytes) : bytes.length ≤ span.remaining := by
  have hroom := h.room
  unfold remaining
  omega

theorem Begins.offers (h : span.Begins space bytes) : span.Offers space bytes := by
  induction bytes generalizing span with
  | nil => exact offers_nil h.room
  | cons byte bytes ih =>
    have hbegins : span.Begins space ([byte] ++ bytes) := h
    have hrest : (span.after 1).Begins space bytes := hbegins.right
    exact offers_cons.mpr ⟨Reading.u8_of_begins hbegins.left, ih hrest⟩

end Span

end Unwinding
