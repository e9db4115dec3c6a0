import Unwinding.Memory.Snapshot
import Unwinding.Proofs.Reading.Leb128

/-!
# Runs that denote too much for a word

A run can have any number of groups, so what it denotes need not fit a word. The
reader of numbers without a sign refuses just those runs whose number does not fit,
however they are padded. The reader of numbers with a sign looks at the groups that lie
wholly above the word, but not at the group that crosses its end: the part of it beyond
the word is lost. It gives a wrong number to the runs that overflow there only.
-/

namespace Unwinding.Reading

variable {space : AddressSpace} {span : Span} {bytes bytes' : List UInt8}

theorem eq_of_offers {byte byte' : UInt8} (h : span.Offers space (byte :: bytes))
    (h' : span.Offers space (byte' :: bytes')) : byte = byte' := by
  have hread := (Span.offers_cons.mp h).1.symm.trans (Span.offers_cons.mp h').1
  cases hread
  rfl

theorem IsRun.unique (hrun : IsRun bytes) (hrun' : IsRun bytes') (h : span.Offers space bytes)
    (h' : span.Offers space bytes') : bytes = bytes' := by
  induction hrun generalizing span bytes' with
  | last hlast =>
    cases hrun' with
    | last => rw [eq_of_offers h h']
    | more hmore _ =>
      rw [eq_of_offers h h', hmore] at hlast
      cases hlast
  | more hmore _ ih =>
    cases hrun' with
    | last hlast =>
      rw [eq_of_offers h h', hlast] at hmore
      cases hmore
    | more _ hrest =>
      rw [eq_of_offers h h', ih hrest (Span.offers_cons.mp h).2 (Span.offers_cons.mp h').2]

section Unsigned

/-- The run is refused at the byte with which its number leaves the word. -/
theorem unsignedRun_overflow (hrun : IsRun bytes) (start : Word) {left shift value : Nat}
    (hleft : bytes.length ≤ left)
    (hover : UInt64.size ≤ value + unsignedValue bytes * 2 ^ shift)
    (h : span.Offers space bytes) :
    ∃ rest, unsignedRun start left shift value space span = .error (.lebOverflow start) rest := by
  induction hrun generalizing span left shift value with
  | @last byte hlast =>
    obtain ⟨left, rfl, -⟩ := exists_left hleft
    have hvalue : unsignedValue [byte] = group byte := by simp [unsignedValue]
    rw [hvalue] at hover
    refine ⟨span.after 1, (bind_of_ok (Span.offers_cons.mp h).1).trans ?_⟩
    dsimp only
    rw [Nat.shiftLeft_eq, if_pos hover]
    rfl
  | @more byte bytes hmore _ ih =>
    obtain ⟨left, rfl, hroom⟩ := exists_left hleft
    have hsplit := Span.offers_cons.mp h
    rw [add_unsignedValue_cons] at hover
    by_cases hhere : UInt64.size ≤ value + group byte * 2 ^ shift
    · refine ⟨span.after 1, (bind_of_ok hsplit.1).trans ?_⟩
      dsimp only
      rw [Nat.shiftLeft_eq, if_pos hhere]
      rfl
    · obtain ⟨rest, herror⟩ := ih hroom hover hsplit.2
      refine ⟨rest, (bind_of_ok hsplit.1).trans ?_⟩
      dsimp only
      rw [Nat.shiftLeft_eq, if_neg hhere, if_neg (by rw [hmore]; exact Bool.false_ne_true)]
      exact herror

/-- What a reader of numbers without a sign makes of whatever lies ahead. -/
structure ReadsUnsigned (space : AddressSpace) (span : Span) : Prop where
  value : ∀ bytes, IsRun bytes → span.Offers space bytes → unsignedValue bytes < 2 ^ 64 →
    uleb128 space span = .ok (UInt64.ofNat (unsignedValue bytes)) (span.after bytes.length)
  overflow : ∀ bytes, IsRun bytes → span.Offers space bytes → 2 ^ 64 ≤ unsignedValue bytes →
    uleb128.result space span = .error (.lebOverflow span.pos)
  /-- Without a run, be it for the limit or for what cannot be read, there is no number. -/
  failure : (∀ bytes, IsRun bytes → ¬ span.Offers space bytes) →
    ∃ error, uleb128.result space span = .error error
  shortest : ∀ n : Word, span.Offers space (encodeUnsigned n.toNat) →
    uleb128 space span = .ok n (span.after (encodeUnsigned n.toNat).length)

/-- The number of a run ahead is read if it fits a word, and refused if not. -/
theorem uleb128_settled (space : AddressSpace) (span : Span) : ReadsUnsigned space span where
  value bytes hrun hoffers hfits := by
    have hvalue : unsignedValue bytes = (UInt64.ofNat (unsignedValue bytes)).toNat :=
      (UInt64.toNat_ofNat_of_lt' hfits).symm
    exact uleb128_eq_ok.mpr ⟨bytes, ⟨hrun, hvalue⟩, hoffers, rfl⟩
  overflow bytes hrun hoffers hover := by
    have hscaled : UInt64.size ≤ 0 + unsignedValue bytes * 2 ^ 0 := by
      rw [Nat.pow_zero, Nat.mul_one, Nat.zero_add]
      exact hover
    obtain ⟨rest, herror⟩ := unsignedRun_overflow hrun span.pos hoffers.length_le hscaled hoffers
    apply result_eq_error.mpr
    exact ⟨rest, (bind_of_ok (get_eq_ok.mpr ⟨rfl, rfl⟩)).trans herror⟩
  failure hnone := by
    cases h : uleb128.result space span with
    | error error => exact ⟨error, rfl⟩
    | ok n =>
      obtain ⟨span', hok⟩ := result_eq_ok.mp h
      obtain ⟨bytes, hrun, hoffers, -⟩ := uleb128_eq_ok.mp hok
      exact absurd hoffers (hnone bytes hrun.1)
  shortest n hoffers := uleb128_eq_ok.mpr ⟨_, encodeUnsigned_spec n.toNat, hoffers, rfl⟩

theorem offers_region {bytes : List UInt8} {limit : Word}
    (hroom : 0x1000 + bytes.length ≤ limit.toNat) :
    (⟨0x1000, limit⟩ : Span).Offers (Snapshot.space ⟨.little, [⟨0x1000, bytes⟩]⟩) bytes := by
  have hstored := Snapshot.stores_region .little ⟨0x1000, bytes⟩ []
    (Nat.lt_of_le_of_lt hroom limit.toNat_lt)
  have hbegins : (⟨0x1000, limit⟩ : Span).Begins
      (Snapshot.space ⟨.little, [⟨0x1000, bytes⟩]⟩) bytes := ⟨hstored, hroom⟩
  exact hbegins.offers

/-- The largest word in twelve bytes. -/
def paddedWord : List UInt8 := List.replicate 9 0xff ++ [0x81, 0x80, 0x00]

theorem uleb128_settled_padded :
    IsRun paddedWord ∧ unsignedValue paddedWord = 2 ^ 64 - 1 ∧
      uleb128 (Snapshot.space ⟨.little, [⟨0x1000, paddedWord⟩]⟩) ⟨0x1000, 0x1010⟩ =
        .ok 0xffffffffffffffff ⟨0x100c, 0x1010⟩ := by
  have hrun : IsRun paddedWord := by decide
  have hoffers : (⟨0x1000, 0x1010⟩ : Span).Offers
      (Snapshot.space ⟨.little, [⟨0x1000, paddedWord⟩]⟩) paddedWord := offers_region (by decide)
  exact ⟨hrun, by decide, (uleb128_settled _ _).value paddedWord hrun hoffers (by decide)⟩

end Unsigned

section Signed

theorem signedRun_overflow (hrun : IsRun bytes) (start : Word) {left shift : Nat} (value : Word)
    (hleft : bytes.length ≤ left) (hextends : ¬ Extends shift bytes)
    (h : span.Offers space bytes) :
    ∃ rest, signedRun start left shift value space span = .error (.lebOverflow start) rest := by
  induction hrun generalizing span left shift value with
  | @last byte hlast =>
    obtain ⟨left, rfl, -⟩ := exists_left hleft
    have hhere : 64 ≤ shift ∧ group byte ≠ 0 ∧ group byte ≠ 127 :=
      Decidable.byContradiction fun hsign => hextends ⟨hsign, trivial⟩
    refine ⟨span.after 1, (bind_of_ok (Span.offers_cons.mp h).1).trans ?_⟩
    dsimp only
    rw [if_pos hhere]
    rfl
  | @more byte bytes hmore _ ih =>
    obtain ⟨left, rfl, hroom⟩ := exists_left hleft
    have hsplit := Span.offers_cons.mp h
    by_cases hhere : 64 ≤ shift ∧ group byte ≠ 0 ∧ group byte ≠ 127
    · refine ⟨span.after 1, (bind_of_ok hsplit.1).trans ?_⟩
      dsimp only
      rw [if_pos hhere]
      rfl
    · have hbehind : ¬ Extends (shift + 7) bytes := fun hrest => hextends ⟨hhere, hrest⟩
      obtain ⟨rest, herror⟩ := ih _ hroom hbehind hsplit.2
      refine ⟨rest, (bind_of_ok hsplit.1).trans ?_⟩
      dsimp only
      rw [if_neg hhere, if_neg (by rw [hmore]; exact Bool.false_ne_true)]
      exact herror

/-- A word can hold the number in two's complement. -/
def Fits (n : Int) : Prop := -2 ^ 63 ≤ n ∧ n < 2 ^ 63

instance (n : Int) : Decidable (Fits n) := inferInstanceAs (Decidable (_ ∧ _))

theorem toInt_ofInt_of_fits {n : Int} (h : Fits n) : (Int64.ofInt n).toInt = n := by
  rw [Int64.toInt_ofInt]
  exact Int.bmod_eq_of_le h.1 h.2

/-- What a reader of numbers with a sign is asked to make of a run that lies ahead. -/
structure ReadsSigned (space : AddressSpace) (span : Span) (bytes : List UInt8) : Prop where
  value : Fits (signedValue bytes) →
    sleb128 space span = .ok (Int64.ofInt (signedValue bytes)) (span.after bytes.length)
  overflow : ¬ Fits (signedValue bytes) →
    sleb128.result space span = .error (.lebOverflow span.pos)
  exact : ∀ n span', sleb128 space span = .ok n span' → n.toInt = signedValue bytes

/-- The number does not fit, yet the groups that lie wholly above the word are such as a
sign has. -/
def Slips (bytes : List UInt8) : Prop := Extends 0 bytes ∧ ¬ Fits (signedValue bytes)

/-- The run is read as it should be unless it slips; then the number is cut off where
the word ends. -/
theorem sleb128_reads_iff (hrun : IsRun bytes) (h : span.Offers space bytes) :
    (ReadsSigned space span bytes ↔ ¬ Slips bytes) ∧
      (Slips bytes →
        sleb128 space span = .ok (Int64.ofInt (signedValue bytes)) (span.after bytes.length)) := by
  have hread (hextends : Extends 0 bytes) :
      sleb128 space span = .ok (Int64.ofInt (signedValue bytes)) (span.after bytes.length) :=
    sleb128_eq_ok.mpr ⟨bytes, ⟨hrun, hextends, rfl⟩, h, rfl⟩
  refine ⟨?_, fun hslips => hread hslips.1⟩
  constructor
  · intro hreads hslips
    have hrefused := hreads.overflow hslips.2
    rw [result_eq_ok.mpr ⟨_, hread hslips.1⟩] at hrefused
    cases hrefused
  · intro hslips
    have hfits (hextends : Extends 0 bytes) : Fits (signedValue bytes) :=
      Decidable.byContradiction fun hfits => hslips ⟨hextends, hfits⟩
    constructor
    · intro hvalue
      exact hread (extends_of_word hrun (toInt_ofInt_of_fits hvalue).symm)
    · intro hvalue
      have hextends : ¬ Extends 0 bytes := fun hextends => hvalue (hfits hextends)
      obtain ⟨rest, herror⟩ := signedRun_overflow hrun span.pos 0 h.length_le hextends h
      apply result_eq_error.mpr
      exact ⟨rest, (bind_of_ok (get_eq_ok.mpr ⟨rfl, rfl⟩)).trans herror⟩
    · intro n span' hok
      obtain ⟨bytes', ⟨hrun', hextends, rfl⟩, hoffers, -⟩ := sleb128_eq_ok.mp hok
      rw [← hrun.unique hrun' h hoffers] at hextends ⊢
      exact toInt_ofInt_of_fits (hfits hextends)

/-- Minus one in eleven bytes. -/
def paddedMinusOne : List UInt8 := List.replicate 10 0xff ++ [0x7f]

theorem sleb128_reads_iff_padded :
    ∃ space span, IsRun paddedMinusOne ∧ span.Offers space paddedMinusOne ∧
      signedValue paddedMinusOne = -1 ∧ ReadsSigned space span paddedMinusOne := by
  have hrun : IsRun paddedMinusOne := by decide
  have hoffers : (⟨0x1000, 0x1010⟩ : Span).Offers
      (Snapshot.space ⟨.little, [⟨0x1000, paddedMinusOne⟩]⟩) paddedMinusOne :=
    offers_region (by decide)
  have hslips : ¬ Slips paddedMinusOne := fun h => h.2 (by decide)
  exact ⟨_, _, hrun, hoffers, by decide, (sleb128_reads_iff hrun hoffers).1.mpr hslips⟩

/-- One more than all words, of which only the tenth group has a bit. -/
def tooWide : List UInt8 := List.replicate 9 0x80 ++ [0x02]

/-- The bit is lost, and the number is read as zero. -/
theorem sleb128_cuts_off :
    ∃ space span, IsRun tooWide ∧ span.Offers space tooWide ∧ signedValue tooWide = 2 ^ 64 ∧
      sleb128 space span = .ok 0 (span.after tooWide.length) ∧
      ¬ ReadsSigned space span tooWide := by
  have hrun : IsRun tooWide := by decide
  have hoffers : (⟨0x1000, 0x100a⟩ : Span).Offers
      (Snapshot.space ⟨.little, [⟨0x1000, tooWide⟩]⟩) tooWide := offers_region (by decide)
  have hread := sleb128_eq_ok.mpr ⟨tooWide, ⟨hrun, by decide, rfl⟩, hoffers, rfl⟩
  refine ⟨_, _, hrun, hoffers, by decide, hread, fun hreads => ?_⟩
  have hexact := hreads.exact _ _ hread
  exact absurd hexact (by decide)

end Signed

end Unwinding.Reading
