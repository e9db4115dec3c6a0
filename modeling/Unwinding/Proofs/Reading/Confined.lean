import Unwinding.Expression.Operation
import Unwinding.Pointer
import Unwinding.Proofs.Reading.Success

/-!
# Decoders that stay in their span

A decoder is confined if all that it does happens within its span: it moves
forward and not beyond the limit, also when it fails, and it gives the same if
everything around the span is taken away. Sequences of confined decoders are
confined, so that it is enough to look at the ones that take bytes.
-/

namespace Unwinding

/-- Only the addresses from `low` up to `high` can be read. -/
def AddressSpace.between (space : AddressSpace) (low high : Word) : AddressSpace where
  endian := space.endian
  read address count :=
    if low ≤ address ∧ address.toNat + count ≤ high.toNat then space.read address count
    else .error (.unmapped address count)

/-- The memories are the same as far as reads are allowed. -/
structure AddressSpace.Alike (allowed : Word → Nat → Prop) (space other : AddressSpace) :
    Prop where
  endian : other.endian = space.endian
  read : ∀ address count, allowed address count →
    other.read address count = space.read address count

theorem AddressSpace.Alike.refl (allowed : Word → Nat → Prop) (space : AddressSpace) :
    space.Alike allowed space := ⟨rfl, fun _ _ _ => rfl⟩

theorem AddressSpace.Alike.mono {allowed allowed' : Word → Nat → Prop} {space other : AddressSpace}
    (h : space.Alike allowed other) (hwithin : ∀ address count, allowed' address count →
      allowed address count) : space.Alike allowed' other :=
  ⟨h.endian, fun address count hallowed => h.read address count (hwithin address count hallowed)⟩

theorem AddressSpace.exists_alike (allowed : Word → Nat → Prop) (space : AddressSpace)
    (error : MemoryError) :
    ∃ other : AddressSpace, space.Alike allowed other ∧
      ∀ address count, ¬ allowed address count → other.read address count = .error error := by
  classical
  let read (address : Word) (count : Nat) : Except MemoryError (List UInt8) :=
    if allowed address count then space.read address count else .error error
  exact ⟨⟨space.endian, read⟩, ⟨rfl, fun _ _ h => if_pos h⟩, fun _ _ h => if_neg h⟩

/-- `later` is what a decoder may leave of `span`. -/
structure Span.Leaves (span later : Span) : Prop where
  forward : span.pos ≤ later.pos
  inside : later.pos ≤ span.limit
  limit : later.limit = span.limit

theorem Span.Leaves.refl {span : Span} (h : span.pos ≤ span.limit) : span.Leaves span :=
  ⟨UInt64.le_refl _, h, rfl⟩

theorem Span.Leaves.trans {span middle later : Span} (h : span.Leaves middle)
    (h' : middle.Leaves later) : span.Leaves later where
  forward := UInt64.le_trans h.forward h'.forward
  inside := h.limit ▸ h'.inside
  limit := h'.limit.trans h.limit

/-- All of the `count` bytes from `address` on are in the span. -/
def Span.Covers (span : Span) (address : Word) (count : Nat) : Prop :=
  span.pos ≤ address ∧ address.toNat + count ≤ span.limit.toNat

theorem Span.Leaves.covers {span later : Span} {address : Word} {count : Nat}
    (h : span.Leaves later) (hcovers : later.Covers address count) : span.Covers address count :=
  ⟨UInt64.le_trans h.forward hcovers.1, h.limit ▸ hcovers.2⟩

theorem AddressSpace.Alike.between_eq {space other : AddressSpace} {span : Span}
    (h : space.Alike span.Covers other) :
    other.between span.pos span.limit = space.between span.pos span.limit := by
  unfold between
  congr 1
  · exact h.endian
  · funext address count
    split
    · rename_i hcovers
      exact h.read address count hcovers
    · rfl

namespace Reading

variable {ε ε' α β : Type}

/-- What a decoder leaves of its span, whether it succeeds or not. -/
def rest : EStateM.Result ε Span α → Span
  | .ok _ span => span
  | .error _ span => span

structure Confined (read : Reading ε α) : Prop where
  leaves : ∀ (space : AddressSpace) (span : Span), span.pos ≤ span.limit →
    span.Leaves (rest (read space span))
  same : ∀ (space : AddressSpace) (low high : Word) (span : Span), low ≤ span.pos →
    span.pos ≤ span.limit → span.limit ≤ high →
      read (space.between low high) span = read space span

/-- A confined decoder does not see what is around its span. -/
theorem Confined.of_alike {read : Reading ε α} (h : read.Confined) {space other : AddressSpace}
    {span : Span} (hspan : span.pos ≤ span.limit) (halike : space.Alike span.Covers other) :
    read other span = read space span := by
  have hle := UInt64.le_refl
  rw [← h.same other span.pos span.limit span (hle _) hspan (hle _), halike.between_eq,
    h.same space span.pos span.limit span (hle _) hspan (hle _)]

theorem bind_apply (read : Reading ε α) (next : α → Reading ε β) (space : AddressSpace)
    (span : Span) :
    (read >>= next) space span =
      match read space span with
      | .ok a middle => next a space middle
      | .error error middle => .error error middle := by
  change EStateM.bind (read space) (fun a => next a space) span = _
  unfold EStateM.bind
  cases read space span <;> rfl

theorem bind_same {read : Reading ε α} {next : α → Reading ε β} {space other : AddressSpace}
    {span : Span} (h : read other span = read space span)
    (hnext : ∀ a middle, read space span = .ok a middle → next a other middle = next a space middle) :
    (read >>= next) other span = (read >>= next) space span := by
  rw [bind_apply, bind_apply, h]
  cases hread : read space span with
  | error error middle => rfl
  | ok a middle => exact hnext a middle hread

theorem mapError_same {read : Reading ε α} {space other : AddressSpace} {span : Span}
    (h : read other span = read space span) (f : ε → ε') :
    mapError f read other span = mapError f read space span := by
  unfold mapError EStateM.adaptExcept
  rw [h]

theorem fetch_same {f : AddressSpace → Except ε α} {space other : AddressSpace}
    (h : f other = f space) (span : Span) : fetch f other span = fetch f space span := by
  unfold fetch
  rw [h]

theorem Confined.bind {read : Reading ε α} {next : α → Reading ε β} (h : read.Confined)
    (hnext : ∀ a, (next a).Confined) : (read >>= next).Confined where
  leaves := by
    intro space span hspan
    have hfirst := h.leaves space span hspan
    rw [bind_apply]
    cases hread : read space span with
    | error error middle =>
      rw [hread] at hfirst
      exact hfirst
    | ok a middle =>
      rw [hread] at hfirst
      have hinside := hfirst.inside
      rw [← hfirst.limit] at hinside
      exact hfirst.trans ((hnext a).leaves space middle hinside)
  same := by
    intro space low high span hlow hspan hhigh
    have hfirst := h.leaves space span hspan
    rw [bind_apply, bind_apply, h.same space low high span hlow hspan hhigh]
    cases hread : read space span with
    | error error middle => rfl
    | ok a middle =>
      rw [hread] at hfirst
      have hinside := hfirst.inside
      rw [← hfirst.limit] at hinside
      exact (hnext a).same space low high middle (UInt64.le_trans hlow hfirst.forward) hinside
        (hfirst.limit ▸ hhigh)

theorem Confined.pure (a : α) : (Pure.pure a : Reading ε α).Confined where
  leaves _ _ hspan := .refl hspan
  same _ _ _ _ _ _ _ := rfl

theorem Confined.throw (error : ε) : (throw error : Reading ε α).Confined where
  leaves _ _ hspan := .refl hspan
  same _ _ _ _ _ _ _ := rfl

theorem Confined.get : (get : Reading ε Span).Confined where
  leaves _ _ hspan := .refl hspan
  same _ _ _ _ _ _ _ := rfl

theorem Confined.map {read : Reading ε α} (h : read.Confined) (f : α → β) :
    (do return f (← read) : Reading ε β).Confined := h.bind fun a => .pure (f a)

theorem Confined.mapError {read : Reading ε α} (h : read.Confined) (f : ε → ε') :
    (mapError f read).Confined where
  leaves := by
    intro space span hspan
    have hread := h.leaves space span hspan
    unfold Reading.mapError EStateM.adaptExcept
    cases hat : read space span <;>
    · rw [hat] at hread
      exact hread
  same := by
    intro space low high span hlow hspan hhigh
    unfold Reading.mapError EStateM.adaptExcept
    rw [h.same space low high span hlow hspan hhigh]

theorem take_apply (count : Nat) (f : Word → AddressSpace → Except MemoryError α)
    (space : AddressSpace) (span : Span) :
    (take count >>= fun address => fetch (f address)) space span =
      if span.pos.toNat + count ≤ span.limit.toNat then
        fetch (f span.pos) space { span with pos := span.pos + UInt64.ofNat count }
      else .error (.pastLimit span.pos count span.limit) span := by
  rw [bind_apply]
  by_cases h : span.pos.toNat + count ≤ span.limit.toNat
  · rw [take_ok h, if_pos h]
  · rw [take_error (Nat.lt_of_not_le h), if_neg h]

theorem rest_fetch (f : AddressSpace → Except ε α) (space : AddressSpace) (span : Span) :
    rest (fetch f space span) = span := by
  unfold fetch
  cases f space <;> rfl

theorem Confined.taken (count : Nat) {f : Word → AddressSpace → Except MemoryError α}
    (hf : ∀ address space space', space.endian = space'.endian →
      space.read address count = space'.read address count → f address space = f address space') :
    (take count >>= fun address => fetch (f address)).Confined where
  leaves := by
    intro space span hspan
    rw [take_apply]
    split
    · rename_i hroom
      have hpos := pos_take hroom
      rw [rest_fetch]
      refine ⟨?_, ?_, rfl⟩
      · rw [UInt64.le_iff_toNat_le]
        exact Nat.le_trans (Nat.le_add_right _ count) (Nat.le_of_eq hpos.symm)
      · rw [UInt64.le_iff_toNat_le]
        exact Nat.le_trans (Nat.le_of_eq hpos) hroom
    · exact .refl hspan
  same := by
    intro space low high span hlow hspan hhigh
    rw [take_apply, take_apply]
    split
    · rename_i hroom
      rw [UInt64.le_iff_toNat_le] at hhigh
      have hinside : low ≤ span.pos ∧ span.pos.toNat + count ≤ high.toNat :=
        ⟨hlow, Nat.le_trans hroom hhigh⟩
      have hsame := hf span.pos (space.between low high) space rfl (if_pos hinside)
      unfold fetch
      rw [hsame]
    · rfl

theorem Confined.known (result : Except ε α) : (fetch fun _ => result : Reading ε α).Confined where
  leaves space span hspan := by
    rw [rest_fetch]
    exact .refl hspan
  same _ _ _ _ _ _ _ := rfl

theorem confined_skip (count : Nat) : (skip count).Confined :=
  .taken count (f := fun _ _ => .ok ()) fun _ _ _ _ _ => rfl

theorem number_congr (address : Word) {space space' : AddressSpace} {count : Nat}
    (hendian : space.endian = space'.endian)
    (hread : space.read address count = space'.read address count) :
    space.number address count = space'.number address count := by
  unfold AddressSpace.number
  rw [hendian, hread]

theorem confined_u8 : u8.Confined :=
  .taken 1 fun address _ _ hendian hread => congrArg _ (number_congr address hendian hread)

theorem confined_u16 : u16.Confined :=
  .taken 2 fun address _ _ hendian hread => congrArg _ (number_congr address hendian hread)

theorem confined_u32 : u32.Confined :=
  .taken 4 fun address _ _ hendian hread => congrArg _ (number_congr address hendian hread)

theorem confined_u64 : u64.Confined :=
  .taken 8 fun address _ _ hendian hread => congrArg _ (number_congr address hendian hread)

theorem confined_pointer : pointer.Confined := confined_u64

theorem Confined.ite {condition : Prop} [Decidable condition] {read read' : Reading ε α}
    (h : read.Confined) (h' : read'.Confined) : (if condition then read else read').Confined := by
  split
  · exact h
  · exact h'

theorem confined_unsignedRun (start : Word) (left shift value : Nat) :
    (unsignedRun start left shift value).Confined := by
  induction left generalizing shift value with
  | zero => exact .bind .get fun _ => .throw _
  | succ left ih =>
    refine .bind confined_u8 fun byte => ?_
    exact .ite (.throw _) (.ite (.pure _) (ih _ _))

theorem confined_uleb128 : uleb128.Confined :=
  .bind .get fun span => confined_unsignedRun span.pos span.remaining 0 0

theorem confined_signedRun (start : Word) (left shift : Nat) (value : Word) :
    (signedRun start left shift value).Confined := by
  induction left generalizing shift value with
  | zero => exact .bind .get fun _ => .throw _
  | succ left ih =>
    refine .bind confined_u8 fun byte => ?_
    exact .ite (.throw _) (.ite (.pure _) (ih _ _))

theorem confined_sleb128 : sleb128.Confined :=
  .bind .get fun span => confined_signedRun span.pos span.remaining 0 0

end Reading

theorem Constant.confined_read (form : Constant) : form.read.Confined := by
  cases form with
  | pointer => exact Reading.confined_pointer
  | unsigned8 => exact Reading.confined_u8.map _
  | signed8 => exact (Reading.confined_u8.map _).map _
  | unsigned16 => exact Reading.confined_u16.map _
  | signed16 => exact (Reading.confined_u16.map _).map _
  | unsigned32 => exact Reading.confined_u32.map _
  | signed32 => exact (Reading.confined_u32.map _).map _
  | unsigned64 => exact Reading.confined_u64
  | signed64 => exact (Reading.confined_u64.map _).map _
  | unsignedLeb => exact Reading.confined_uleb128
  | signedLeb => exact Reading.confined_sleb128.map _

/-! ## Pointers

A pointer that is stored indirectly is loaded from where its field leads. Up to that load,
nothing is read but the field. -/

namespace Reading

/-- What an encoded pointer says before the load that an indirect one asks for. -/
def unloaded (encoding : Encoding) (bases : Bases) : Reading MemoryError Word := do
  let field ← pos
  match encoding.format with
  | none => throw (.unsupportedEncoding encoding.byte)
  | some format =>
    let value ← format.read
    let base ← fetch fun _ => encoding.base bases field
    return value + base

theorem encodedPointer_eq (encoding : Encoding) (bases : Bases) :
    encodedPointer encoding bases = (do
      let target ← unloaded encoding bases
      if encoding.isIndirect then fetch fun space => space.pointer target
      else return target) := by
  unfold encodedPointer unloaded
  rw [bind_assoc]
  refine bind_congr fun field => ?_
  cases encoding.format with
  | none => rfl
  | some format => simp only [bind_assoc, pure_bind]

end Reading

theorem Format.confined_read (format : Format) : format.read.Confined := by
  cases format with
  | pointer => exact Reading.confined_pointer
  | uleb128 => exact Reading.confined_uleb128
  | udata2 => exact Reading.confined_u16.map _
  | udata4 => exact Reading.confined_u32.map _
  | udata8 => exact Reading.confined_u64
  | sleb128 => exact Reading.confined_sleb128.map _
  | sdata2 => exact (Reading.confined_u16.map _).map _
  | sdata4 => exact (Reading.confined_u32.map _).map _
  | sdata8 => exact (Reading.confined_u64.map _).map _

theorem Reading.confined_unloaded (encoding : Encoding) (bases : Bases) :
    (unloaded encoding bases).Confined := by
  refine .bind (.bind .get fun _ => .pure _) fun field => ?_
  cases encoding.format with
  | none => exact .throw _
  | some format => exact .bind format.confined_read fun _ => .bind (.known _) fun _ => .pure _

theorem Reading.confined_encodedPointer {encoding : Encoding} (bases : Bases)
    (h : encoding.isIndirect = false) : (encodedPointer encoding bases).Confined := by
  rw [encodedPointer_eq, h]
  exact .bind (confined_unloaded encoding bases) fun _ => .pure _

/-- Of a pointer that is loaded from elsewhere, too, only the stored value is consumed. -/
theorem Reading.leaves_encodedPointer (encoding : Encoding) (bases : Bases) (space : AddressSpace)
    {span : Span} (h : span.pos ≤ span.limit) :
    span.Leaves (rest (encodedPointer encoding bases space span)) := by
  have hunloaded := (confined_unloaded encoding bases).leaves space span h
  rw [encodedPointer_eq, bind_apply]
  cases htarget : unloaded encoding bases space span with
  | error error middle =>
    rw [htarget] at hunloaded
    exact hunloaded
  | ok target middle =>
    rw [htarget] at hunloaded
    dsimp only
    split
    · rw [rest_fetch]
      exact hunloaded
    · exact hunloaded

theorem Reading.encodedPointer_of_alike {encoding : Encoding} {bases : Bases}
    {space other : AddressSpace} {span : Span} (hspan : span.pos ≤ span.limit)
    (halike : space.Alike span.Covers other)
    (hload : ∀ target rest, unloaded encoding bases space span = .ok target rest →
      other.pointer target = space.pointer target) :
    encodedPointer encoding bases other span = encodedPointer encoding bases space span := by
  rw [encodedPointer_eq]
  refine bind_same ((confined_unloaded encoding bases).of_alike hspan halike) ?_
  intro target rest htarget
  cases encoding.isIndirect with
  | false => rfl
  | true => exact fetch_same (f := fun space => space.pointer target) (hload target rest htarget) rest

end Unwinding
