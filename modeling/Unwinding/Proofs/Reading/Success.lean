import Unwinding.CallFrame.Error

/-!
# When a decoder succeeds

A decoder runs over a span and a memory, and ends with a value and what is left
of the span. These are the equations that take a successful decoder apart, step
by step, so that no other module unfolds the monad of readings.

The second half compares decoders. One decoder is within another if the other
decodes all that it does, to the same values; what it refuses, the other may
still decode. The relation goes through sequences of decoders, so that it is
enough to know it of the parts in which two decoders differ.
-/

namespace Unwinding.Reading

variable {ε ε' α β : Type} {space : AddressSpace} {span span' : Span}

@[simp] theorem bind_eq_ok {read : Reading ε α} {rest : α → Reading ε β} {b : β} :
    (read >>= rest) space span = .ok b span' ↔
      ∃ a middle, read space span = .ok a middle ∧ rest a space middle = .ok b span' := by
  change EStateM.bind (read space) (fun a => rest a space) span = _ ↔ _
  unfold EStateM.bind
  cases read space span with
  | error error middle =>
    constructor
    · intro h
      cases h
    · rintro ⟨a, middle, h, -⟩
      cases h
  | ok a middle =>
    constructor
    · intro h
      exact ⟨a, middle, rfl, h⟩
    · rintro ⟨a', middle', ha, h⟩
      cases ha
      exact h

@[simp] theorem pure_eq_ok {a b : α} :
    (pure a : Reading ε α) space span = .ok b span' ↔ a = b ∧ span = span' := by
  change EStateM.Result.ok a span = _ ↔ _
  rw [EStateM.Result.ok.injEq]

@[simp] theorem throw_eq_ok {error : ε} {a : α} :
    (throw error : Reading ε α) space span = .ok a span' ↔ False := by
  change EStateM.Result.error error span = _ ↔ _
  constructor
  · intro h
    cases h
  · exact False.elim

@[simp] theorem mapError_eq_ok {f : ε → ε'} {read : Reading ε α} {a : α} :
    mapError f read space span = .ok a span' ↔ read space span = .ok a span' := by
  unfold mapError EStateM.adaptExcept
  cases read space span <;> simp

@[simp] theorem liftM_eq_ok {read : Reading MemoryError α} {a : α} :
    (liftM read : Reading CfiError α) space span = .ok a span' ↔
      read space span = .ok a span' := mapError_eq_ok

@[simp] theorem get_eq_ok {middle : Span} :
    (get : Reading ε Span) space span = .ok middle span' ↔ span = middle ∧ span = span' := by
  change EStateM.Result.ok span span = _ ↔ _
  rw [EStateM.Result.ok.injEq]

@[simp] theorem pos_eq_ok {address : Word} :
    (pos : Reading ε Word) space span = .ok address span' ↔
      span.pos = address ∧ span = span' := by
  change EStateM.Result.ok span.pos span = _ ↔ _
  rw [EStateM.Result.ok.injEq]

@[simp] theorem fetch_eq_ok {f : AddressSpace → Except ε α} {a : α} :
    fetch f space span = .ok a span' ↔ f space = .ok a ∧ span = span' := by
  unfold fetch
  cases f space <;> simp

theorem take_eq_ok {count : Nat} {address : Word} :
    take count space span = .ok address span' ↔
      span.pos.toNat + count ≤ span.limit.toNat ∧ span.pos = address ∧
        { span with pos := span.pos + UInt64.ofNat count } = span' := by
  by_cases h : span.pos.toNat + count ≤ span.limit.toNat
  · rw [take_ok h, EStateM.Result.ok.injEq]
    exact (and_iff_right h).symm
  · rw [take_error (Nat.lt_of_not_le h)]
    constructor
    · intro hok
      cases hok
    · exact fun hok => absurd hok.1 h

@[simp] theorem result_eq_ok {read : Reading ε α} {a : α} :
    read.result space span = .ok a ↔ ∃ span', read space span = .ok a span' := by
  unfold result
  cases read space span <;> simp

theorem bind_of_ok {read : Reading ε α} {rest : α → Reading ε β} {a : α}
    (h : read space span = .ok a span') : (read >>= rest) space span = rest a space span' := by
  change EStateM.bind (read space) (fun a => rest a space) span = _
  unfold EStateM.bind
  rw [h]

theorem pos_bind (rest : Word → Reading ε β) :
    (pos >>= rest) space span = rest span.pos space span := rfl

theorem result_bind {read : Reading ε α} {rest : α → Reading ε β} {a : α}
    (h : read space span = .ok a span') :
    (read >>= rest).result space span = (rest a).result space span' := by
  unfold result
  rw [bind_of_ok h]

@[simp] theorem result_eq_error {read : Reading ε α} {error : ε} :
    read.result space span = .error error ↔ ∃ span', read space span = .error error span' := by
  unfold result
  cases read space span <;> simp

@[simp] theorem result_pure {a : α} : (pure a : Reading ε α).result space span = .ok a := rfl

theorem toNat_add_ofNat {address : Word} {count : Nat}
    (h : address.toNat + count < UInt64.size) :
    (address + UInt64.ofNat count).toNat = address.toNat + count := by
  have hcount : (UInt64.ofNat count).toNat = count :=
    UInt64.toNat_ofNat_of_lt' (Nat.lt_of_le_of_lt (Nat.le_add_left _ _) h)
  rw [UInt64.toNat_add, hcount]
  exact Nat.mod_eq_of_lt h

theorem pos_take {count : Nat} (h : span.pos.toNat + count ≤ span.limit.toNat) :
    (span.pos + UInt64.ofNat count).toNat = span.pos.toNat + count :=
  toNat_add_ofNat (Nat.lt_of_le_of_lt h span.limit.toNat_lt)

theorem taken_eq_ok (count : Nat) {f : Word → AddressSpace → Except MemoryError α} {a : α} :
    (take count >>= fun address => fetch (f address)) space span = .ok a span' ↔
      span.pos.toNat + count ≤ span.limit.toNat ∧ f span.pos space = .ok a ∧
        { span with pos := span.pos + UInt64.ofNat count } = span' := by
  rw [bind_eq_ok]
  constructor
  · rintro ⟨address, middle, htake, hfetch⟩
    obtain ⟨hroom, rfl, rfl⟩ := take_eq_ok.mp htake
    obtain ⟨hf, rfl⟩ := fetch_eq_ok.mp hfetch
    exact ⟨hroom, hf, rfl⟩
  · rintro ⟨hroom, hf, rfl⟩
    exact ⟨_, _, take_eq_ok.mpr ⟨hroom, rfl, rfl⟩, fetch_eq_ok.mpr ⟨hf, rfl⟩⟩

theorem u8_eq_ok {byte : UInt8} :
    u8 space span = .ok byte span' ↔
      span.pos.toNat + 1 ≤ span.limit.toNat ∧ space.get8 span.pos = .ok byte ∧
        { span with pos := span.pos + 1 } = span' := taken_eq_ok 1

theorem pos_of_taken (count : Nat) {f : Word → AddressSpace → Except MemoryError α} {a : α}
    (h : (take count >>= fun address => fetch (f address)) space span = .ok a span') :
    span'.pos.toNat = span.pos.toNat + count := by
  obtain ⟨hroom, -, rfl⟩ := (taken_eq_ok count).mp h
  exact pos_take hroom

theorem pos_of_u32 {n : UInt32} (h : u32 space span = .ok n span') :
    span'.pos.toNat = span.pos.toNat + 4 := pos_of_taken 4 h

theorem pos_of_u64 {n : UInt64} (h : u64 space span = .ok n span') :
    span'.pos.toNat = span.pos.toNat + 8 := pos_of_taken 8 h

/-- What `read` decodes, `read'` decodes to the same value. -/
def Within (read read' : Reading ε α) : Prop :=
  ∀ space span a span', read space span = .ok a span' → read' space span = .ok a span'

theorem Within.refl (read : Reading ε α) : read.Within read := fun _ _ _ _ h => h

theorem Within.bind {read read' : Reading ε α} {rest rest' : α → Reading ε β}
    (h : read.Within read') (hrest : ∀ a, (rest a).Within (rest' a)) :
    (read >>= rest).Within (read' >>= rest') := by
  intro space span b span' hok
  obtain ⟨a, middle, ha, hb⟩ := bind_eq_ok.mp hok
  exact bind_eq_ok.mpr ⟨a, middle, h _ _ _ _ ha, hrest a _ _ _ _ hb⟩

theorem Within.liftM {read read' : Reading MemoryError α} (h : read.Within read') :
    Within (liftM read : Reading CfiError α) (liftM read') := by
  intro space span a span' hok
  exact liftM_eq_ok.mpr (h _ _ _ _ (liftM_eq_ok.mp hok))

theorem Within.fetch {f f' : AddressSpace → Except ε α}
    (h : ∀ space a, f space = .ok a → f' space = .ok a) :
    (Reading.fetch f).Within (Reading.fetch f') := by
  intro space span a span' hok
  obtain ⟨ha, hspan⟩ := fetch_eq_ok.mp hok
  exact fetch_eq_ok.mpr ⟨h space a ha, hspan⟩

theorem Within.result {read read' : Reading ε α} (h : read.Within read') {a : α}
    (hok : read.result space span = .ok a) : read'.result space span = .ok a := by
  obtain ⟨span', ha⟩ := result_eq_ok.mp hok
  exact result_eq_ok.mpr ⟨span', h _ _ _ _ ha⟩

end Unwinding.Reading
