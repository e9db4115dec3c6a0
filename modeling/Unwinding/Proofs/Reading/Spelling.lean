import Unwinding.Proofs.Reading.Grammar
import Unwinding.Proofs.Reading.Pointer

/-!
# How numbers and pointers are spelled

A number of seven-bit groups has one shortest spelling and many that are accepted.
Which of them are meant is left open in the grammars of formats and pointers. With
all that are accepted, they are the grammars that the decoders parse.
-/

namespace Unwinding

/-- Which bytes stand for numbers of seven-bit groups. -/
structure LebForms where
  unsigned : Word → List UInt8 → Prop
  signed : Int64 → List UInt8 → Prop

namespace LebForms

/-- The shortest ones. -/
def canonical : LebForms where
  unsigned n bytes := bytes = Reading.encodeUnsigned n.toNat
  signed n bytes := bytes = Reading.encodeSigned n.toInt

/-- A run without a sign may be padded. One with a sign may go on above the word, as
long as it only extends the sign there or is cut off. -/
def accepted : LebForms where
  unsigned n bytes := Reading.IsRun bytes ∧ Reading.unsignedValue bytes = n.toNat
  signed n bytes := Reading.IsRun bytes ∧ Reading.Extends 0 bytes ∧
    Int64.ofInt (Reading.signedValue bytes) = n

/-- All spellings of some forms are spellings of others. -/
structure Within (forms forms' : LebForms) : Prop where
  unsigned : ∀ n bytes, forms.unsigned n bytes → forms'.unsigned n bytes
  signed : ∀ n bytes, forms.signed n bytes → forms'.signed n bytes

theorem canonical_within : canonical.Within accepted where
  unsigned := by
    rintro n bytes rfl
    exact Reading.encodeUnsigned_spec n.toNat
  signed := by
    rintro n bytes rfl
    obtain ⟨hrun, hvalue⟩ := Reading.encodeSigned_spec n.toInt
    exact ⟨hrun, Reading.extends_encodeSigned n, by rw [hvalue, Int64.ofInt_toInt]⟩

end LebForms

namespace Reading

theorem parses_run {α : Type} {read : Reading MemoryError α} {grammar : α → List UInt8 → Prop}
    (hread : ∀ {space span span' a}, read space span = .ok a span' ↔
      ∃ bytes, grammar a bytes ∧ Span.Offers span space bytes ∧
        span' = span.after bytes.length) :
    read.Parses fun _ _ a bytes => grammar a bytes where
  complete hbegins hspelled := hread.mpr ⟨_, hspelled, hbegins.offers, rfl⟩
  sound := by
    intro space span span' a hok
    obtain ⟨bytes, hspelled, hoffers, hspan⟩ := hread.mp hok
    refine ⟨bytes.length, hoffers.length_le, hspan, fun bytes' hlength hagrees => ?_⟩
    rw [hoffers.eq_of_agrees hagrees hlength]
    exact hspelled

theorem parses_uleb128 : uleb128.Parses fun _ _ n bytes => LebForms.accepted.unsigned n bytes :=
  parses_run uleb128_eq_ok

theorem parses_sleb128 : sleb128.Parses fun _ _ n bytes => LebForms.accepted.signed n bytes :=
  parses_run sleb128_eq_ok

end Reading

namespace Format

/-- How the format spells a word. Those that can hold only some words are read as one
of these. -/
def spells (forms : LebForms) (format : Format) : Grammar Word := fun space _ value bytes =>
  match format with
  | uleb128 => forms.unsigned value bytes
  | sleb128 => forms.signed value.toInt64 bytes
  | format => format.Holds value ∧ bytes = format.write space.endian value

theorem spells_mono {forms forms' : LebForms} (h : forms.Within forms') {format : Format}
    {space : AddressSpace} {address value : Word} {bytes : List UInt8}
    (hspells : format.spells forms space address value bytes) :
    format.spells forms' space address value bytes := by
  cases format with
  | uleb128 => exact h.unsigned _ _ hspells
  | sleb128 => exact h.signed _ _ hspells
  | _ => exact hspells

theorem spells_write {format : Format} {space : AddressSpace} {address value : Word}
    (hholds : format.Holds value) :
    format.spells .canonical space address value (format.write space.endian value) := by
  cases format with
  | uleb128 => rfl
  | sleb128 => rfl
  | _ => exact ⟨hholds, rfl⟩

/-- A number of a fixed size is read as a word. The format can hold the words that
come out, and whatever word it can hold is written as the number that it comes from. -/
theorem parses_extended {α : Type} {read : Reading MemoryError α} {format : Format} {count : Nat}
    {toNat : α → Nat} {extend : α → Word} (narrow : Word → α)
    (h : read.Parses fun space _ n bytes => bytes = space.endian.encode count (toNat n))
    (hholds : ∀ n, format.Holds (extend n)) (hnarrow : ∀ n, narrow (extend n) = n)
    (hextend : ∀ value, format.Holds value → extend (narrow value) = value)
    (hlow : ∀ value, toNat (narrow value) = value.toNat % 256 ^ count) :
    (do return extend (← read) : Reading MemoryError Word).Parses fun space _ value bytes =>
      format.Holds value ∧ bytes = space.endian.encode count value.toNat :=
  (h.map extend).congr fun space _ value bytes => by
    have hencode : ∀ value : Word, space.endian.encode count (toNat (narrow value)) =
        space.endian.encode count value.toNat := by
      intro value
      rw [hlow]
      exact space.endian.encode_mod count value.toNat
    constructor
    · rintro ⟨n, rfl, rfl⟩
      exact ⟨hholds n, by rw [← hencode, hnarrow]⟩
    · rintro ⟨hvalue, rfl⟩
      exact ⟨narrow value, (hencode value).symm, hextend value hvalue⟩

theorem parses_udata2 :
    udata2.read.Parses fun space _ value bytes =>
      udata2.Holds value ∧ bytes = space.endian.encode 2 value.toNat := by
  refine parses_extended UInt64.toUInt16 Reading.parses_u16 (fun n => n.toNat_lt)
    UInt16.toUInt16_toUInt64 ?_ UInt64.toNat_toUInt16
  intro value hvalue
  apply UInt64.toNat_inj.mp
  rw [UInt16.toNat_toUInt64, UInt64.toNat_toUInt16, Nat.mod_eq_of_lt hvalue]

theorem parses_udata4 :
    udata4.read.Parses fun space _ value bytes =>
      udata4.Holds value ∧ bytes = space.endian.encode 4 value.toNat := by
  refine parses_extended UInt64.toUInt32 Reading.parses_u32 (fun n => n.toNat_lt)
    UInt32.toUInt32_toUInt64 ?_ UInt64.toNat_toUInt32
  intro value hvalue
  apply UInt64.toNat_inj.mp
  rw [UInt32.toNat_toUInt64, UInt64.toNat_toUInt32, Nat.mod_eq_of_lt hvalue]

theorem parses_sdata2 :
    sdata2.read.Parses fun space _ value bytes =>
      sdata2.Holds value ∧ bytes = space.endian.encode 2 value.toNat := by
  refine parses_extended (fun value => value.toInt64.toInt16) Reading.parses_i16 ?_ ?_ ?_ ?_
  · intro n
    unfold Holds
    rw [Int64.toInt64_toUInt64, Int16.toInt_toInt64]
    exact ⟨n.le_toInt, n.toInt_lt⟩
  · intro n
    rw [Int64.toInt64_toUInt64, Int16.toInt16_toInt64]
  · intro value hvalue
    have hsame : value.toInt64.toInt16.toInt64 = value.toInt64 := by
      apply Int64.toInt_inj.mp
      rw [Int16.toInt_toInt64, Int64.toInt_toInt16]
      exact Int.bmod_eq_of_le hvalue.1 hvalue.2
    rw [hsame, UInt64.toUInt64_toInt64]
  · intro value
    change (value.toBitVec.signExtend 16).toNat = _
    rw [BitVec.signExtend_eq_setWidth_of_le _ (by decide), BitVec.toNat_setWidth]
    rfl

theorem parses_sdata4 :
    sdata4.read.Parses fun space _ value bytes =>
      sdata4.Holds value ∧ bytes = space.endian.encode 4 value.toNat := by
  refine parses_extended (fun value => value.toInt64.toInt32) Reading.parses_i32 ?_ ?_ ?_ ?_
  · intro n
    unfold Holds
    rw [Int64.toInt64_toUInt64, Int32.toInt_toInt64]
    exact ⟨n.le_toInt, n.toInt_lt⟩
  · intro n
    rw [Int64.toInt64_toUInt64, Int32.toInt32_toInt64]
  · intro value hvalue
    have hsame : value.toInt64.toInt32.toInt64 = value.toInt64 := by
      apply Int64.toInt_inj.mp
      rw [Int32.toInt_toInt64, Int64.toInt_toInt32]
      exact Int.bmod_eq_of_le hvalue.1 hvalue.2
    rw [hsame, UInt64.toUInt64_toInt64]
  · intro value
    change (value.toBitVec.signExtend 32).toNat = _
    rw [BitVec.signExtend_eq_setWidth_of_le _ (by decide), BitVec.toNat_setWidth]
    rfl

theorem parses_read (format : Format) : format.read.Parses (format.spells .accepted) := by
  cases format with
  | pointer => exact Reading.parses_u64.congr fun _ _ _ _ => (and_iff_right trivial).symm
  | udata8 => exact Reading.parses_u64.congr fun _ _ _ _ => (and_iff_right trivial).symm
  | uleb128 => exact Reading.parses_uleb128
  | sleb128 =>
    exact Reading.parses_sleb128.rename Int64.toInt64_toUInt64 UInt64.toUInt64_toInt64
  | udata2 => exact parses_udata2
  | udata4 => exact parses_udata4
  | sdata2 => exact parses_sdata2
  | sdata4 => exact parses_sdata4
  | sdata8 =>
    refine (Reading.parses_i64.rename Int64.toInt64_toUInt64 UInt64.toUInt64_toInt64).congr
      fun _ _ _ _ => ?_
    rw [UInt64.toUInt64_toInt64]
    exact (and_iff_right trivial).symm

end Format

namespace Encoding

/-- How the encoding spells the address that a field at some address leads to. -/
def spells (forms : LebForms) (encoding : Encoding) (bases : Bases) : Grammar Word :=
  fun space field target bytes =>
    ∃ format stored, encoding.format = some format ∧
      format.spells forms space field stored bytes ∧
      encoding.Resolves space bases field stored target

theorem spells_mono {forms forms' : LebForms} (h : forms.Within forms') {encoding : Encoding}
    {bases : Bases} {space : AddressSpace} {field target : Word} {bytes : List UInt8}
    (hspells : encoding.spells forms bases space field target bytes) :
    encoding.spells forms' bases space field target bytes := by
  obtain ⟨format, stored, hformat, hstored, hresolves⟩ := hspells
  exact ⟨format, stored, hformat, Format.spells_mono h hstored, hresolves⟩

theorem resolved_eq_ok {encoding : Encoding} {bases : Bases} {field stored target : Word}
    {space : AddressSpace} {span span' : Span} :
    (do
      let base ← Reading.fetch fun _ => encoding.base bases field
      if encoding.isIndirect then Reading.fetch fun space => space.pointer (stored + base)
      else return stored + base : Reading MemoryError Word) space span = .ok target span' ↔
      encoding.Resolves space bases field stored target ∧ span = span' := by
  have hload : ∀ base : Word, (if encoding.isIndirect then
      Reading.fetch fun space => space.pointer (stored + base)
      else return stored + base : Reading MemoryError Word) space span = .ok target span' ↔
      (if encoding.isIndirect then space.pointer (stored + base) = .ok target
        else stored + base = target) ∧ span = span' := by
    intro base
    cases encoding.isIndirect with
    | true =>
      rw [if_pos rfl, if_pos rfl]
      exact Reading.fetch_eq_ok
    | false =>
      rw [if_neg Bool.false_ne_true, if_neg Bool.false_ne_true]
      exact Reading.pure_eq_ok
  rw [Reading.bind_eq_ok]
  constructor
  · rintro ⟨base, middle, hfetch, h⟩
    obtain ⟨hbase, rfl⟩ := Reading.fetch_eq_ok.mp hfetch
    obtain ⟨htarget, rfl⟩ := (hload base).mp h
    exact ⟨⟨base, hbase, htarget⟩, rfl⟩
  · rintro ⟨⟨base, hbase, htarget⟩, rfl⟩
    exact ⟨base, span, Reading.fetch_eq_ok.mpr ⟨hbase, rfl⟩, (hload base).mpr ⟨htarget, rfl⟩⟩

theorem encodedPointer_eq_ok {encoding : Encoding} {bases : Bases} {target : Word}
    {space : AddressSpace} {span span' : Span} :
    Reading.encodedPointer encoding bases space span = .ok target span' ↔
      ∃ format stored, encoding.format = some format ∧
        format.read space span = .ok stored span' ∧
        encoding.Resolves space bases span.pos stored target := by
  constructor
  · intro hok
    obtain ⟨field, _, hfield, hok⟩ := Reading.bind_eq_ok.mp hok
    obtain ⟨rfl, rfl⟩ := Reading.pos_eq_ok.mp hfield
    cases hformat : encoding.format with
    | none =>
      rw [hformat] at hok
      exact (Reading.throw_eq_ok.mp hok).elim
    | some format =>
      rw [hformat] at hok
      obtain ⟨stored, middle, hread, hok⟩ := Reading.bind_eq_ok.mp hok
      obtain ⟨hresolves, rfl⟩ := resolved_eq_ok.mp hok
      exact ⟨format, stored, rfl, hread, hresolves⟩
  · rintro ⟨format, stored, hformat, hread, hresolves⟩
    refine Reading.bind_eq_ok.mpr ⟨span.pos, span, rfl, ?_⟩
    rw [hformat]
    exact Reading.bind_eq_ok.mpr ⟨stored, _, hread, resolved_eq_ok.mpr ⟨hresolves, rfl⟩⟩

theorem parses_encodedPointer (encoding : Encoding) (bases : Bases) :
    (Reading.encodedPointer encoding bases).Parses (encoding.spells .accepted bases) where
  complete := by
    rintro space span target bytes hbegins ⟨format, stored, hformat, hstored, hresolves⟩
    exact encodedPointer_eq_ok.mpr
      ⟨format, stored, hformat, (format.parses_read).complete hbegins hstored, hresolves⟩
  sound := by
    intro space span span' target hok
    obtain ⟨format, stored, hformat, hread, hresolves⟩ := encodedPointer_eq_ok.mp hok
    obtain ⟨count, hcount, hspan, hspells⟩ := (format.parses_read).sound hread
    exact ⟨count, hcount, hspan, fun bytes hlength hagrees =>
      ⟨format, stored, hformat, hspells bytes hlength hagrees, hresolves⟩⟩

end Encoding

theorem Reading.encodedPointer_of_begins {space : AddressSpace} {span : Span} {encoding : Encoding}
    {bases : Bases} {value target : Word} (hholds : encoding.Holds value)
    (hresolves : encoding.Resolves space bases span.pos value target)
    (h : span.Begins space (encoding.write space.endian value)) :
    encodedPointer encoding bases space span =
      .ok target (span.after (encoding.write space.endian value).length) := by
  obtain ⟨format, hformat, hholds⟩ := hholds
  have hwrite : encoding.write space.endian value = format.write space.endian value := by
    unfold Encoding.write
    rw [hformat]
  rw [hwrite] at h ⊢
  have hspells : encoding.spells .canonical bases space span.pos target
      (format.write space.endian value) :=
    ⟨format, value, hformat, Format.spells_write hholds, hresolves⟩
  exact (encoding.parses_encodedPointer bases).complete h
    (Encoding.spells_mono LebForms.canonical_within hspells)

/-! ## What is consumed -/

section Consumed

variable {space : AddressSpace} {span span' span'' : Span}

theorem Reading.after_of_taken {count : Nat} (hpositive : 0 < count) {α : Type}
    {f : Word → AddressSpace → Except MemoryError α} {a : α}
    (h : (take count >>= fun address => fetch (f address)) space span = .ok a span') :
    ∃ count, 0 < count ∧ count ≤ span.remaining ∧ span' = span.after count := by
  obtain ⟨hroom, -, rfl⟩ := (taken_eq_ok count).mp h
  refine ⟨count, hpositive, ?_, rfl⟩
  unfold Span.remaining
  omega

theorem Format.after_of_read {format : Format} {stored : Word}
    (h : format.read space span = .ok stored span') :
    ∃ count, 0 < count ∧ count ≤ span.remaining ∧ span' = span.after count := by
  cases format with
  | pointer | udata8 => exact Reading.after_of_taken (by decide) h
  | uleb128 =>
    obtain ⟨bytes, ⟨hrun, -⟩, hoffers, hspan⟩ := Reading.uleb128_eq_ok.mp h
    exact ⟨_, hrun.length_pos, hoffers.length_le, hspan⟩
  | sleb128 =>
    obtain ⟨n, _, hread, hpure⟩ := Reading.bind_eq_ok.mp h
    obtain ⟨-, rfl⟩ := Reading.pure_eq_ok.mp hpure
    obtain ⟨bytes, ⟨hrun, -⟩, hoffers, hspan⟩ := Reading.sleb128_eq_ok.mp hread
    exact ⟨_, hrun.length_pos, hoffers.length_le, hspan⟩
  | udata2 | udata4 =>
    obtain ⟨n, _, hread, hpure⟩ := Reading.bind_eq_ok.mp h
    obtain ⟨-, rfl⟩ := Reading.pure_eq_ok.mp hpure
    exact Reading.after_of_taken (by decide) hread
  | sdata2 | sdata4 | sdata8 =>
    simp only [Format.read, Reading.i16, Reading.i32, Reading.i64, Reading.bind_eq_ok,
      Reading.pure_eq_ok] at h
    obtain ⟨_, _, ⟨_, _, hread, -, rfl⟩, -, rfl⟩ := h
    exact Reading.after_of_taken (by decide) hread

theorem Reading.after_of_encodedPointer {encoding : Encoding} {bases : Bases} {target : Word}
    (h : encodedPointer encoding bases space span = .ok target span') :
    ∃ count, 0 < count ∧ count ≤ span.remaining ∧ span' = span.after count := by
  obtain ⟨_, _, -, hread, -⟩ := Encoding.encodedPointer_eq_ok.mp h
  exact Format.after_of_read hread

theorem Reading.encodedPointer_valueOnly {encoding : Encoding} {bases : Bases}
    {target target' : Word} (h : encodedPointer encoding bases space span = .ok target span')
    (h' : encodedPointer encoding.valueOnly bases space span = .ok target' span'') :
    span' = span'' := by
  obtain ⟨format, _, hformat, hread, -⟩ := Encoding.encodedPointer_eq_ok.mp h
  obtain ⟨format', _, hformat', hread', -⟩ := Encoding.encodedPointer_eq_ok.mp h'
  rw [Encoding.format_valueOnly, hformat] at hformat'
  cases hformat'
  rw [hread] at hread'
  cases hread'
  rfl

end Consumed

end Unwinding
