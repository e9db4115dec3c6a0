import Unwinding.Lookup.Table
import Unwinding.Memory.Snapshot
import Unwinding.Proofs.CallFrame.Decoding
import Unwinding.Proofs.Reading.Failure
import Unwinding.Proofs.Reading.Spelling

/-!
# Stored pointers and the stride of a table

An address is stored as its distance from the base that the encoding names, in a format
that can hold the distance; a reader adds the base again. A format of a fixed size is
consumed as a whole, whatever the value, so that each entry of a table is read up to the
place where a search expects the next one.
-/

namespace Unwinding

variable {space : AddressSpace} {bases : Bases} {span span' : Span} {encoding : Encoding}

section Stored

/-- What a field stands for that leads to `target`. -/
def Encoding.follow (encoding : Encoding) (target : Word) : Reading MemoryError Word :=
  if encoding.isIndirect then Reading.fetch fun space => space.pointer target
  else return target

theorem Format.read_write {format : Format} {value : Word} (hholds : format.Holds value)
    (h : span.Begins space (format.write space.endian value)) :
    format.read space span =
      .ok value (span.after (format.write space.endian value).length) := by
  have hspells : format.spells .accepted space span.pos value
      (format.write space.endian value) :=
    Format.spells_mono LebForms.canonical_within (Format.spells_write hholds)
  exact format.parses_read.complete h hspells

/-- An address comes back that is stored as its distance from the base. -/
theorem Reading.encodedPointer_write {format : Format} {application : Application}
    {base target : Word} (hformat : encoding.format = some format)
    (happlication : encoding.application = some application)
    (hbase : bases.supplies span.pos application = some base)
    (hholds : format.Holds (target - base))
    (h : span.Begins space (format.write space.endian (target - base))) :
    encodedPointer encoding bases space span = encoding.follow target space
      (span.after (format.write space.endian (target - base)).length) := by
  have hsupplied : encoding.base bases span.pos = .ok base :=
    Encoding.base_eq_ok.mpr ⟨application, happlication, hbase⟩
  unfold encodedPointer Encoding.follow
  rw [pos_bind, hformat]
  dsimp only
  rw [bind_of_ok (Format.read_write hholds h),
    bind_of_ok (fetch_eq_ok.mpr ⟨hsupplied, rfl⟩), UInt64.sub_add_cancel]

end Stored

section Refused

theorem Reading.encodedPointer_absent (h : encoding.isAbsent = true) :
    encodedPointer encoding bases space span =
      .error (.unsupportedEncoding Encoding.absent.byte) span := by
  have habsent : encoding = .absent := congrArg Encoding.mk (eq_of_beq h)
  rw [habsent]
  rfl

theorem Reading.encodedPointer_aligned (h : encoding.application = some .aligned) :
    ∃ error rest, encodedPointer encoding bases space span = .error error rest ∧
      (error = .unsupportedEncoding encoding.byte ∨
        ∃ format, encoding.format = some format ∧ format.read space span = .error error rest) := by
  have hbase : encoding.base bases span.pos = .error (.unsupportedEncoding encoding.byte) := by
    unfold Encoding.base
    rw [h]
  unfold encodedPointer
  rw [pos_bind]
  cases hformat : encoding.format with
  | none => exact ⟨_, _, rfl, .inl rfl⟩
  | some format =>
    dsimp only
    cases hread : format.read space span with
    | error error rest =>
      exact ⟨error, rest, bind_eq_error.mpr (.inl hread), .inr ⟨format, rfl, hread⟩⟩
    | ok value rest =>
      rw [bind_of_ok hread]
      exact ⟨_, rest, bind_eq_error.mpr (.inl (fetch_eq_error.mpr ⟨hbase, rfl⟩)), .inl rfl⟩

end Refused

section Sized

/-- A format of a fixed size takes just as many bytes, all of them from within the span. -/
theorem Format.read_sized {format : Format} {count : Nat} {value : Word}
    (hsize : format.size = some count) (h : format.read space span = .ok value span') :
    span.pos.toNat + count ≤ span.limit.toNat ∧ span' = span.after count := by
  have htaken {α : Type} {f : Word → AddressSpace → Except MemoryError α} {a : α} {rest : Span}
      (h : (Reading.take count >>= fun address => Reading.fetch (f address)) space span =
        .ok a rest) : span.pos.toNat + count ≤ span.limit.toNat ∧ rest = span.after count := by
    obtain ⟨hroom, -, rfl⟩ := (Reading.taken_eq_ok count).mp h
    exact ⟨hroom, rfl⟩
  cases format with
  | pointer | udata8 =>
    cases hsize
    exact htaken h
  | udata2 | udata4 =>
    cases hsize
    obtain ⟨n, _, hread, hpure⟩ := Reading.bind_eq_ok.mp h
    obtain ⟨-, rfl⟩ := Reading.pure_eq_ok.mp hpure
    exact htaken hread
  | sdata2 | sdata4 | sdata8 =>
    cases hsize
    simp only [Format.read, Reading.i16, Reading.i32, Reading.i64, Reading.bind_eq_ok,
      Reading.pure_eq_ok] at h
    obtain ⟨_, _, ⟨_, _, hread, -, rfl⟩, -, rfl⟩ := h
    exact htaken hread
  | uleb128 | sleb128 => cases hsize

theorem Reading.encodedPointer_sized {count : Nat} {target : Word}
    (hsize : encoding.size = some count)
    (h : encodedPointer encoding bases space span = .ok target span') :
    span.pos.toNat + count ≤ span.limit.toNat ∧ span' = span.after count := by
  obtain ⟨format, hformat, hsize⟩ := Option.bind_eq_some_iff.mp hsize
  obtain ⟨format', _, hformat', hread, -⟩ := Encoding.encodedPointer_eq_ok.mp h
  cases hformat.symm.trans hformat'
  exact Format.read_sized hsize hread

namespace LookupTable

variable {table : LookupTable} {size : Nat} {row : Word × Word}

theorem size_of_valueSize (h : table.valueSize = .ok size) : table.encoding.size = some size := by
  unfold valueSize at h
  split at h
  · split at h
    · cases h
    · cases h
      assumption
  · cases h

theorem entryReading_sized (hsize : table.encoding.size = some size)
    (h : table.entryReading space span = .ok row span') :
    span.pos.toNat + 2 * size ≤ span.limit.toNat ∧ span' = span.after (2 * size) := by
  obtain ⟨start, middle, hstart, h⟩ := Reading.bind_eq_ok.mp h
  obtain ⟨entry, rest, hentry, h⟩ := Reading.bind_eq_ok.mp h
  obtain ⟨-, rfl⟩ := Reading.pure_eq_ok.mp h
  obtain ⟨hroom, rfl⟩ := Reading.encodedPointer_sized hsize (Reading.liftM_eq_ok.mp hstart)
  obtain ⟨hroom', rfl⟩ := Reading.encodedPointer_sized hsize (Reading.liftM_eq_ok.mp hentry)
  have hpos : (span.after size).pos.toNat = span.pos.toNat + size := Reading.pos_take hroom
  have hlimit : (span.after size).limit = span.limit := rfl
  rw [hpos, hlimit] at hroom'
  rw [Span.after_after, ← Nat.two_mul]
  exact ⟨by omega, rfl⟩

/-- Where a search looks for an entry. -/
def place (table : LookupTable) (size index : Nat) : Span :=
  .unbounded (table.entries + UInt64.ofNat (index * (2 * size)))

theorem place_after (index : Nat) :
    (table.place size index).after (2 * size) = table.place size (index + 1) := by
  unfold place Span.after Span.unbounded
  rw [UInt64.add_assoc, ← UInt64.ofNat_add, ← Nat.succ_mul index (2 * size)]

end LookupTable

end Sized

/-- What a reader makes of pointers in an encoding. -/
structure Encoding.Carries (encoding : Encoding) (bases : Bases) (space : AddressSpace) :
    Prop where
  stored : ∀ span format application base target, encoding.format = some format →
    encoding.application = some application →
    bases.supplies (Span.pos span) application = some base → format.Holds (target - base) →
    span.Begins space (format.write space.endian (target - base)) →
    Reading.encodedPointer encoding bases space span = encoding.follow target space
      (span.after (format.write space.endian (target - base)).length)
  sized : ∀ count span span' target, encoding.size = some count →
    Reading.encodedPointer encoding bases space span = .ok target span' →
    span' = span.after count ∧ span'.pos.toNat = span.pos.toNat + count
  stride : ∀ table size index row, LookupTable.encoding table = encoding →
    table.valueSize = .ok size → table.entry space size index = .ok row →
    table.entryReading space (table.place size index) = .ok row (table.place size (index + 1))
  absent : encoding.isAbsent = true → ∀ span,
    Reading.encodedPointer encoding bases space span = .error (.unsupportedEncoding 0xff) span
  aligned : encoding.application = some .aligned → ∀ span,
    ∃ error span', Reading.encodedPointer encoding bases space span = .error error span' ∧
      (error = .unsupportedEncoding encoding.byte ∨
        ∃ format, encoding.format = some format ∧ format.read space span = .error error span')

/-- In every encoding a pointer is read back as it was stored and takes the bytes that it was
stored in, and encodings without a meaning are refused. -/
theorem Encoding.carries (encoding : Encoding) (bases : Bases) (space : AddressSpace) :
    encoding.Carries bases space where
  stored _ _ _ _ _ hformat happlication hbase hholds h :=
    Reading.encodedPointer_write hformat happlication hbase hholds h
  sized count span span' target hsize h := by
    obtain ⟨hroom, rfl⟩ := Reading.encodedPointer_sized hsize h
    exact ⟨rfl, Reading.pos_take hroom⟩
  stride table size index row _ hsize h := by
    obtain ⟨span', hread⟩ :
        ∃ span', table.entryReading space (table.place size index) = .ok row span' :=
      Reading.result_eq_ok.mp h
    have hspan := (table.entryReading_sized (table.size_of_valueSize hsize) hread).2
    rw [← table.place_after, ← hspan]
    exact hread
  absent h span := Reading.encodedPointer_absent h
  aligned h span := Reading.encodedPointer_aligned h

/-- A field of four bytes, and a word eight bytes in front of it. -/
def indirectField : Snapshot where
  endian := .big
  regions := [⟨0x1000, [0xff, 0xff, 0xff, 0xf8]⟩, ⟨0xff8, [0, 0, 0, 0, 0, 0x12, 0x34, 0x56]⟩]

theorem Encoding.carries_indirect :
    Encoding.Carries ⟨0x9b⟩ .unknown indirectField.space ∧
      Reading.encodedPointer ⟨0x9b⟩ .unknown indirectField.space (.unbounded 0x1000) =
        .ok 0x123456 (.unbounded 0x1004) := by
  have hcarries := Encoding.carries ⟨0x9b⟩ .unknown indirectField.space
  have hbegins : (Span.unbounded 0x1000).Begins indirectField.space
      (Format.sdata4.write .big (0xff8 - 0x1000)) :=
    ⟨Snapshot.stores_region .big ⟨0x1000, [0xff, 0xff, 0xff, 0xf8]⟩ _ (by decide), by decide⟩
  have hread := hcarries.stored _ .sdata4 .field 0x1000 0xff8 rfl rfl rfl (by decide) hbegins
  have hload : indirectField.space.pointer 0xff8 = .ok 0x123456 := by decide +kernel
  refine ⟨hcarries, hread.trans ?_⟩
  rw [Encoding.follow, if_pos (by decide)]
  exact Reading.fetch_eq_ok.mpr ⟨hload, rfl⟩

end Unwinding
