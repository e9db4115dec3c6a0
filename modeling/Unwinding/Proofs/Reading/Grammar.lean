import Unwinding.Proofs.Outcome
import Unwinding.Proofs.Reading.Stored

/-!
# Decoders and what they decode

A grammar says how the values of a kind are spelled: which bytes stand for which
value, in which memory and at which address. A decoder parses a grammar if it
decodes every spelling that a span begins with, and moves just behind it, and if
whatever it decodes was spelled by the bytes that it moved over. Decoders that
follow each other parse spellings that follow each other.

Bytes that are passed over need not be readable. So the second half of this is
said of any bytes that agree with what can be read.
-/

namespace Unwinding

/-- Whatever can be read of the bytes is as they say. -/
def AddressSpace.Agrees (space : AddressSpace) (address : Word) (bytes : List UInt8) : Prop :=
  ∀ offset count found, offset + count ≤ bytes.length →
    space.read (address + UInt64.ofNat offset) count = .ok found →
      found = (bytes.drop offset).take count

namespace AddressSpace

variable {space : AddressSpace} {address : Word} {bytes front behind : List UInt8}

theorem Stores.agrees (h : space.Stores address bytes) : space.Agrees address bytes := by
  intro offset count found hcount hread
  rw [h offset count hcount] at hread
  exact (Except.ok.inj hread).symm

theorem Agrees.left (h : space.Agrees address (front ++ behind)) : space.Agrees address front := by
  intro offset count found hcount hread
  have hfound := h offset count found (by rw [List.length_append]; omega) hread
  rw [hfound, List.drop_append_of_le_length (by omega),
    List.take_append_of_le_length (by rw [List.length_drop]; omega)]

theorem Agrees.right (h : space.Agrees address (front ++ behind)) :
    space.Agrees (address + UInt64.ofNat front.length) behind := by
  intro offset count found hcount hread
  rw [UInt64.add_assoc, ← UInt64.ofNat_add] at hread
  rw [h (front.length + offset) count found (by rw [List.length_append]; omega) hread,
    List.drop_length_add_append]

theorem Agrees.cut {count rest : Nat} (h : space.Agrees address bytes)
    (hlength : bytes.length = count + rest) :
    ∃ front behind, bytes = front ++ behind ∧ front.length = count ∧ behind.length = rest ∧
      space.Agrees address front ∧ space.Agrees (address + UInt64.ofNat count) behind := by
  have hsplit : bytes.take count ++ bytes.drop count = bytes := List.take_append_drop count bytes
  have hfront : (bytes.take count).length = count := by rw [List.length_take]; omega
  have hbehind : (bytes.drop count).length = rest := by rw [List.length_drop]; omega
  rw [← hsplit] at h
  have hright := h.right
  rw [hfront] at hright
  exact ⟨_, _, hsplit.symm, hfront, hbehind, h.left, hright⟩

theorem Agrees.read (h : space.Agrees address bytes) {found : List UInt8}
    (hread : space.read address bytes.length = .ok found) : found = bytes := by
  have hzero : address + UInt64.ofNat 0 = address := UInt64.add_zero address
  have hfound := h 0 bytes.length found (by omega) (hzero.symm ▸ hread)
  rwa [List.drop_zero, List.take_length] at hfound

theorem Agrees.number (h : space.Agrees address bytes) {n : Nat}
    (hn : space.number address bytes.length = .ok n) : n = space.endian.decode bytes := by
  obtain ⟨found, hfound, rfl⟩ := Outcome.map_eq_ok.mp hn
  rw [h.read hfound]

theorem Agrees.get8 {byte byte' : UInt8} (h : space.Agrees address [byte])
    (hget : space.get8 address = .ok byte') : byte' = byte := by
  obtain ⟨n, hn, rfl⟩ := Outcome.map_eq_ok.mp hget
  have hdecode : space.endian.decode [byte] = byte.toNat := by
    cases space.endian <;> simp [Endian.decode, Bytes.toNat]
  rw [h.number hn, hdecode, UInt8.ofNat_toNat]

end AddressSpace

/-- Which bytes stand for which value, in a memory and at an address. -/
abbrev Grammar (α : Type) := AddressSpace → Word → α → List UInt8 → Prop

namespace Grammar

variable {α β : Type}

/-- The value is always this one, and nothing is written. -/
def only (a : α) : Grammar α := fun _ _ a' bytes => a' = a ∧ bytes = []

/-- A value, and then another one that may depend on it. -/
def andThen (first : Grammar α) (rest : α → Grammar β) : Grammar β := fun space address b bytes =>
  ∃ a front behind, bytes = front ++ behind ∧ first space address a front ∧
    rest a space (address + UInt64.ofNat front.length) b behind

def map (f : α → β) (grammar : Grammar α) : Grammar β := fun space address b bytes =>
  ∃ a, grammar space address a bytes ∧ f a = b

end Grammar

theorem Span.remaining_after {span : Span} {count : Nat} (h : count ≤ span.remaining) :
    (span.after count).remaining = span.remaining - count := by
  rcases Nat.eq_zero_or_pos count with rfl | hpos
  · rw [span.after_zero, Nat.sub_zero]
  · unfold remaining at h ⊢
    have hmoved : (span.after count).pos.toNat = span.pos.toNat + count :=
      Reading.pos_take (by omega)
    rw [hmoved, Nat.sub_add_eq]
    rfl

theorem Span.le_of_remaining {span : Span} (h : 0 < span.remaining) : span.pos ≤ span.limit := by
  unfold remaining at h
  rw [UInt64.le_iff_toNat_le]
  omega

theorem Span.pos_after {span : Span} {count : Nat} (hcount : count ≤ span.remaining)
    (hroom : span.pos ≤ span.limit) : (span.after count).pos.toNat = span.pos.toNat + count ∧
      (span.after count).pos ≤ (span.after count).limit := by
  rw [UInt64.le_iff_toNat_le] at *
  unfold remaining at hcount
  have hpos : (span.after count).pos.toNat = span.pos.toNat + count := Reading.pos_take (by omega)
  refine ⟨hpos, ?_⟩
  change (span.after count).pos.toNat ≤ span.limit.toNat
  omega

theorem Span.Offers.eq_of_agrees {span : Span} {space : AddressSpace} {bytes bytes' : List UInt8}
    (h : span.Offers space bytes) (hagrees : space.Agrees span.pos bytes')
    (hlength : bytes'.length = bytes.length) : bytes' = bytes := by
  induction bytes generalizing span bytes' with
  | nil => exact List.eq_nil_of_length_eq_zero hlength
  | cons byte bytes ih =>
    cases bytes' with
    | nil => cases hlength
    | cons byte' bytes' =>
      have hsplit := Span.offers_cons.mp h
      have hget := (Reading.u8_eq_ok.mp hsplit.1).2.1
      have hagrees' : space.Agrees span.pos ([byte'] ++ bytes') := hagrees
      have hrest : space.Agrees (span.after 1).pos bytes' := hagrees'.right
      rw [hagrees'.left.get8 hget, ih hsplit.2 hrest (Nat.succ.inj hlength)]

namespace Reading

variable {ε α β : Type}

/-- The decoder decodes all that the grammar spells, and nothing else. -/
structure Parses (read : Reading ε α) (grammar : Grammar α) : Prop where
  complete : ∀ {space : AddressSpace} {span : Span} {a : α} {bytes : List UInt8},
    span.Begins space bytes → grammar space span.pos a bytes →
      read space span = .ok a (span.after bytes.length)
  sound : ∀ {space : AddressSpace} {span span' : Span} {a : α}, read space span = .ok a span' →
    ∃ count, count ≤ span.remaining ∧ span' = span.after count ∧
      ∀ bytes, bytes.length = count → space.Agrees span.pos bytes → grammar space span.pos a bytes

theorem Parses.congr {read : Reading ε α} {grammar grammar' : Grammar α} (h : read.Parses grammar)
    (hsame : ∀ space address a bytes, grammar space address a bytes ↔
      grammar' space address a bytes) : read.Parses grammar' where
  complete hbegins hspelled := h.complete hbegins ((hsame _ _ _ _).mpr hspelled)
  sound hok := by
    obtain ⟨count, hcount, hspan, hspelled⟩ := h.sound hok
    exact ⟨count, hcount, hspan, fun bytes hlength hagrees =>
      (hsame _ _ _ _).mp (hspelled bytes hlength hagrees)⟩

theorem Parses.pure (a : α) : (Pure.pure a : Reading ε α).Parses (.only a) where
  complete := by
    rintro space span a' bytes - ⟨rfl, rfl⟩
    exact congrArg (EStateM.Result.ok a') span.after_zero.symm
  sound := by
    intro space span span' a' hok
    obtain ⟨rfl, rfl⟩ := pure_eq_ok.mp hok
    exact ⟨0, Nat.zero_le _, span.after_zero.symm, fun bytes hlength _ =>
      ⟨rfl, List.eq_nil_of_length_eq_zero hlength⟩⟩

theorem Parses.throw (error : ε) :
    (throw error : Reading ε α).Parses fun _ _ _ _ => False where
  complete _ hspelled := hspelled.elim
  sound hok := (throw_eq_ok.mp hok).elim

theorem Parses.known (result : Except ε α) :
    (fetch fun _ => result).Parses fun _ _ a bytes => result = .ok a ∧ bytes = [] where
  complete := by
    rintro space span a bytes - ⟨hresult, rfl⟩
    exact fetch_eq_ok.mpr ⟨hresult, span.after_zero.symm⟩
  sound := by
    intro space span span' a hok
    obtain ⟨hresult, rfl⟩ := fetch_eq_ok.mp hok
    exact ⟨0, Nat.zero_le _, span.after_zero.symm, fun bytes hlength _ =>
      ⟨hresult, List.eq_nil_of_length_eq_zero hlength⟩⟩

theorem Parses.bind {read : Reading ε α} {rest : α → Reading ε β} {first : Grammar α}
    {second : α → Grammar β} (h : read.Parses first) (hrest : ∀ a, (rest a).Parses (second a)) :
    (read >>= rest).Parses (first.andThen second) where
  complete := by
    rintro space span b bytes hbegins ⟨a, front, behind, rfl, hfirst, hsecond⟩
    refine bind_eq_ok.mpr ⟨a, _, h.complete hbegins.left hfirst, ?_⟩
    rw [(hrest a).complete hbegins.right hsecond, Span.after_after, List.length_append]
  sound := by
    intro space span span' b hok
    obtain ⟨a, middle, hread, hok⟩ := bind_eq_ok.mp hok
    obtain ⟨front, hfront, rfl, hfirst⟩ := h.sound hread
    obtain ⟨behind, hbehind, rfl, hsecond⟩ := (hrest a).sound hok
    rw [Span.remaining_after hfront] at hbehind
    refine ⟨front + behind, by omega, Span.after_after span front behind, ?_⟩
    intro bytes hlength hagrees
    obtain ⟨first, second, rfl, rfl, hbehind, hleft, hright⟩ := hagrees.cut hlength
    exact ⟨a, first, second, rfl, hfirst first rfl hleft, hsecond second hbehind hright⟩

theorem Parses.map {read : Reading ε α} {grammar : Grammar α} (h : read.Parses grammar)
    (f : α → β) : (do return f (← read) : Reading ε β).Parses (grammar.map f) :=
  (h.bind fun a => .pure (f a)).congr fun space address b bytes => by
    constructor
    · rintro ⟨a, front, behind, rfl, hspelled, rfl, rfl⟩
      exact ⟨a, by rwa [List.append_nil], rfl⟩
    · rintro ⟨a, hspelled, rfl⟩
      exact ⟨a, bytes, [], (List.append_nil bytes).symm, hspelled, rfl, rfl⟩

theorem Parses.rename {read : Reading ε α} {grammar : Grammar α} {f : α → β} {g : β → α}
    (h : read.Parses grammar) (hgf : ∀ a, g (f a) = a) (hfg : ∀ b, f (g b) = b) :
    (do return f (← read) : Reading ε β).Parses fun space address b bytes =>
      grammar space address (g b) bytes :=
  (h.map f).congr fun space address b bytes => by
    constructor
    · rintro ⟨a, hspelled, rfl⟩
      rwa [hgf]
    · intro hspelled
      exact ⟨g b, hspelled, hfg b⟩

theorem Parses.liftM {read : Reading MemoryError α} {grammar : Grammar α}
    (h : read.Parses grammar) :
    (liftM read : Reading CfiError α).Parses grammar where
  complete hbegins hspelled := liftM_eq_ok.mpr (h.complete hbegins hspelled)
  sound hok := h.sound (liftM_eq_ok.mp hok)

/-! ## Numbers of a fixed size -/

theorem parses_number {count : Nat} {ofNat : Nat → α} {toNat : α → Nat}
    (hof : ∀ a, ofNat (toNat a) = a) (hto : ∀ n, toNat (ofNat n) = n % 256 ^ count) :
    (take count >>= fun address => fetch fun space =>
      (space.number address count).map ofNat).Parses
        fun space _ a bytes => bytes = space.endian.encode count (toNat a) where
  complete := by
    rintro space span a bytes hbegins rfl
    have hvalue : toNat a % 256 ^ count = toNat a := by rw [← hto, hof]
    rw [Endian.encode_length]
    refine taken_of_begins (f := fun address space => (space.number address count).map ofNat)
      hbegins (Endian.encode_length _ _ _) ?_
    rw [hbegins.stored.number, hvalue]
    exact congrArg Except.ok (hof a)
  sound := by
    intro space span span' a hok
    obtain ⟨hroom, hf, rfl⟩ :=
      (taken_eq_ok count (f := fun address space => (space.number address count).map ofNat)).mp hok
    refine ⟨count, by unfold Span.remaining; omega, rfl, ?_⟩
    rintro bytes rfl hagrees
    obtain ⟨n, hn, rfl⟩ := Outcome.map_eq_ok.mp hf
    rw [hagrees.number hn, hto, Nat.mod_eq_of_lt (Endian.decode_lt _ _), Endian.encode_decode]

theorem parses_u8 : u8.Parses fun _ _ byte bytes => bytes = [byte] where
  complete := by
    rintro space span byte bytes hbegins rfl
    exact u8_of_begins hbegins
  sound := by
    intro space span span' byte hok
    obtain ⟨hroom, hget, rfl⟩ := u8_eq_ok.mp hok
    refine ⟨1, by unfold Span.remaining; omega, rfl, ?_⟩
    intro bytes hlength hagrees
    obtain ⟨byte', rfl⟩ := List.length_eq_one_iff.mp hlength
    rw [hagrees.get8 hget]

theorem parses_u16 : u16.Parses fun space _ n bytes => bytes = space.endian.encode 2 n.toNat :=
  parses_number (fun _ => UInt16.ofNat_toNat) fun _ => UInt16.toNat_ofNat'

theorem parses_u32 : u32.Parses fun space _ n bytes => bytes = space.endian.encode 4 n.toNat :=
  parses_number (fun _ => UInt32.ofNat_toNat) fun _ => UInt32.toNat_ofNat'

theorem parses_u64 : u64.Parses fun space _ n bytes => bytes = space.endian.encode 8 n.toNat :=
  parses_number (fun _ => UInt64.ofNat_toNat) fun _ => UInt64.toNat_ofNat'

theorem parses_i16 :
    i16.Parses fun space _ n bytes => bytes = space.endian.encode 2 n.toUInt16.toNat :=
  parses_u16.rename UInt16.toUInt16_toInt16 Int16.toInt16_toUInt16

theorem parses_i32 :
    i32.Parses fun space _ n bytes => bytes = space.endian.encode 4 n.toUInt32.toNat :=
  parses_u32.rename UInt32.toUInt32_toInt32 Int32.toInt32_toUInt32

theorem parses_i64 :
    i64.Parses fun space _ n bytes => bytes = space.endian.encode 8 n.toUInt64.toNat :=
  parses_u64.rename UInt64.toUInt64_toInt64 Int64.toInt64_toUInt64

/-- Bytes that are passed over may be any, but their place is known. -/
theorem parses_skip (count : Nat) (f : Word → α) :
    (do
      let start ← pos
      skip count
      return f start : Reading CfiError α).Parses
        fun _ address a bytes => bytes.length = count ∧ f address = a where
  complete := by
    rintro space span a bytes hbegins ⟨rfl, rfl⟩
    refine bind_eq_ok.mpr ⟨span.pos, span, rfl, bind_eq_ok.mpr ⟨(), _, ?_, rfl⟩⟩
    exact liftM_eq_ok.mpr (bind_eq_ok.mpr ⟨_, _, take_ok hbegins.room, rfl⟩)
  sound := by
    intro space span span' a hok
    obtain ⟨start, _, hpos, hok⟩ := bind_eq_ok.mp hok
    obtain ⟨rfl, rfl⟩ := pos_eq_ok.mp hpos
    obtain ⟨_, middle, hskip, hok⟩ := bind_eq_ok.mp hok
    obtain ⟨rfl, rfl⟩ := pure_eq_ok.mp hok
    obtain ⟨_, _, htake, hskip⟩ := bind_eq_ok.mp (liftM_eq_ok.mp hskip)
    obtain ⟨hroom, -, rfl⟩ := take_eq_ok.mp htake
    obtain ⟨-, rfl⟩ := pure_eq_ok.mp hskip
    exact ⟨count, by unfold Span.remaining; omega, rfl, fun bytes hlength _ => ⟨hlength, rfl⟩⟩

end Reading

end Unwinding
