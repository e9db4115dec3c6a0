import Unwinding.Proofs.Reading.Stored

/-!
# Runs of seven-bit groups

A run is a list of bytes of which the last one, and only that one, says that it
is. It stands for a number without a sign, and for one in two's complement. A
decoder that meets a run gives its number, if that fits a word, and moves behind
it; the shortest run for a number is one of those that stand for it.
-/

namespace Unwinding.Reading

inductive IsRun : List UInt8 → Prop
  | last {byte : UInt8} : isLast byte = true → IsRun [byte]
  | more {byte : UInt8} {bytes : List UInt8} : isLast byte = false → IsRun bytes →
      IsRun (byte :: bytes)

instance IsRun.decidable : (bytes : List UInt8) → Decidable (IsRun bytes)
  | [] => .isFalse nofun
  | [byte] => decidable_of_iff (isLast byte = true)
      ⟨.last, fun | .last hlast => hlast | .more _ hrest => nomatch hrest⟩
  | byte :: next :: bytes =>
    have := IsRun.decidable (next :: bytes)
    decidable_of_iff (isLast byte = false ∧ IsRun (next :: bytes))
      ⟨fun h => .more h.1 h.2, fun | .more hmore hrest => ⟨hmore, hrest⟩⟩

theorem IsRun.length_pos {bytes : List UInt8} (h : IsRun bytes) : 0 < bytes.length := by
  cases h <;> exact Nat.zero_lt_succ _

/-- The number of a run without a sign. -/
def unsignedValue : List UInt8 → Nat
  | [] => 0
  | byte :: bytes => group byte + 128 * unsignedValue bytes

/-- The number of a run whose last group has the sign as its top bit. -/
def signedValue : List UInt8 → Int
  | [] => 0
  | [byte] => if 64 ≤ group byte then (group byte : Int) - 128 else group byte
  | byte :: bytes => group byte + 128 * signedValue bytes

variable {space : AddressSpace} {span : Span} {bytes : List UInt8} {start : Word}

theorem group_lt (byte : UInt8) : group byte < 128 := Nat.mod_lt _ (by decide)

section Groups

variable {g : Nat}

theorem toNat_last (h : g < 128) : (UInt8.ofNat g).toNat = g :=
  UInt8.toNat_ofNat_of_lt' (Nat.lt_of_lt_of_le h (by decide))

theorem toNat_more (h : g < 128) : (UInt8.ofNat (g + 128)).toNat = g + 128 :=
  UInt8.toNat_ofNat_of_lt' (Nat.add_lt_add_right h 128)

theorem group_last (h : g < 128) : group (UInt8.ofNat g) = g := by
  unfold group
  rw [toNat_last h, Nat.mod_eq_of_lt h]

theorem group_more (h : g < 128) : group (UInt8.ofNat (g + 128)) = g := by
  unfold group
  rw [toNat_more h, Nat.add_mod_right, Nat.mod_eq_of_lt h]

theorem isLast_last (h : g < 128) : isLast (UInt8.ofNat g) = true := by
  unfold isLast
  rw [toNat_last h]
  exact decide_eq_true h

theorem isLast_more (h : g < 128) : isLast (UInt8.ofNat (g + 128)) = false := by
  unfold isLast
  rw [toNat_more h]
  exact decide_eq_false (by omega)

end Groups

section Unsigned

theorem add_unsignedValue_cons (byte : UInt8) (bytes : List UInt8) (low shift : Nat) :
    low + unsignedValue (byte :: bytes) * 2 ^ shift =
      low + group byte * 2 ^ shift + unsignedValue bytes * 2 ^ (shift + 7) := by
  rw [unsignedValue, Nat.add_mul, Nat.pow_add, Nat.mul_comm 128, Nat.mul_assoc, Nat.mul_comm 128,
    Nat.add_assoc]

theorem exists_left {byte : UInt8} {left : Nat} (h : (byte :: bytes).length ≤ left) :
    ∃ rest, left = rest + 1 ∧ bytes.length ≤ rest := by
  rw [List.length_cons] at h
  exact ⟨left - 1, by omega, by omega⟩

/-- A run is read as its number as long as that fits a word. -/
theorem unsignedRun_of_run (hrun : IsRun bytes) {left shift value : Nat}
    (hleft : bytes.length ≤ left)
    (hfits : value + unsignedValue bytes * 2 ^ shift < UInt64.size)
    (h : span.Offers space bytes) :
    unsignedRun start left shift value space span =
      .ok (UInt64.ofNat (value + unsignedValue bytes * 2 ^ shift)) (span.after bytes.length) := by
  induction hrun generalizing span left shift value with
  | @last byte hlast =>
    obtain ⟨left, rfl, -⟩ := exists_left hleft
    have hvalue : unsignedValue [byte] = group byte := by simp [unsignedValue]
    rw [hvalue] at hfits ⊢
    refine bind_eq_ok.mpr ⟨byte, _, (Span.offers_cons.mp h).1, ?_⟩
    dsimp only
    rw [Nat.shiftLeft_eq, if_neg (Nat.not_le.mpr hfits), if_pos hlast]
    rfl
  | @more byte bytes hlast _ ih =>
    obtain ⟨left, rfl, hroom⟩ := exists_left hleft
    rw [add_unsignedValue_cons] at hfits ⊢
    have hsplit := Span.offers_cons.mp h
    refine bind_eq_ok.mpr ⟨byte, _, hsplit.1, ?_⟩
    dsimp only
    rw [Nat.shiftLeft_eq, if_neg (by omega), if_neg (by rw [hlast]; nofun)]
    refine (ih hroom hfits hsplit.2).trans ?_
    rw [Span.after_after, Nat.add_comm 1]
    rfl

theorem exists_run_of_unsignedRun {left shift value : Nat} {n : Word} {span' : Span}
    (h : unsignedRun start left shift value space span = .ok n span') :
    ∃ bytes, IsRun bytes ∧ span.Offers space bytes ∧
      value + unsignedValue bytes * 2 ^ shift = n.toNat ∧ span' = span.after bytes.length := by
  induction left generalizing span shift value with
  | zero =>
    obtain ⟨_, _, -, h⟩ := bind_eq_ok.mp h
    exact (throw_eq_ok.mp h).elim
  | succ left ih =>
    obtain ⟨byte, middle, hbyte, h⟩ := bind_eq_ok.mp h
    obtain rfl : span.after 1 = middle := (u8_eq_ok.mp hbyte).2.2
    dsimp only at h
    rw [Nat.shiftLeft_eq] at h
    by_cases hfits : UInt64.size ≤ value + group byte * 2 ^ shift
    · rw [if_pos hfits] at h
      obtain ⟨_, _, hthrow, -⟩ := bind_eq_ok.mp h
      exact (throw_eq_ok.mp hthrow).elim
    · rw [if_neg hfits] at h
      by_cases hlast : isLast byte = true
      · rw [if_pos hlast] at h
        obtain ⟨rfl, rfl⟩ := pure_eq_ok.mp h
        refine ⟨[byte], .last hlast, Span.offers_single hbyte, ?_, rfl⟩
        rw [UInt64.toNat_ofNat_of_lt' (by omega)]
        simp [unsignedValue]
      · rw [if_neg hlast] at h
        obtain ⟨bytes, hrun, hoffers, hvalue, rfl⟩ := ih h
        refine ⟨byte :: bytes, .more (Bool.eq_false_iff.mpr hlast) hrun,
          Span.offers_cons.mpr ⟨hbyte, hoffers⟩, ?_, ?_⟩
        · rw [add_unsignedValue_cons, hvalue]
        · rw [Span.after_after, List.length_cons, Nat.add_comm]

theorem encodeUnsigned_of_lt {n : Nat} (h : n < 128) : encodeUnsigned n = [UInt8.ofNat n] := by
  rw [encodeUnsigned, if_pos h]

theorem encodeUnsigned_spec (n : Nat) :
    IsRun (encodeUnsigned n) ∧ unsignedValue (encodeUnsigned n) = n := by
  induction n using encodeUnsigned.induct with
  | case1 n hlast =>
    rw [encodeUnsigned_of_lt hlast]
    refine ⟨.last (isLast_last hlast), ?_⟩
    rw [unsignedValue, unsignedValue, group_last hlast]
    omega
  | case2 n hmore ih =>
    obtain ⟨hrun, hvalue⟩ := ih
    have hgroup : n % 128 < 128 := Nat.mod_lt _ (by decide)
    rw [encodeUnsigned, if_neg hmore]
    refine ⟨.more (isLast_more hgroup) hrun, ?_⟩
    rw [unsignedValue, group_more hgroup, hvalue]
    omega

theorem length_encodeUnsigned_le (n : Nat) : (encodeUnsigned n).length ≤ n + 1 := by
  induction n using encodeUnsigned.induct with
  | case1 n hlast =>
    rw [encodeUnsigned_of_lt hlast]
    exact Nat.le_add_left 1 n
  | case2 n hmore ih =>
    rw [encodeUnsigned, if_neg hmore, List.length_cons]
    omega

theorem uleb128_eq_ok {n : Word} {span' : Span} :
    uleb128 space span = .ok n span' ↔
      ∃ bytes, (IsRun bytes ∧ unsignedValue bytes = n.toNat) ∧ span.Offers space bytes ∧
        span' = span.after bytes.length := by
  have hscaled (bytes : List UInt8) :
      0 + unsignedValue bytes * 2 ^ 0 = unsignedValue bytes := by omega
  constructor
  · intro h
    obtain ⟨bytes, hrun, hoffers, hvalue, hspan⟩ :=
      exists_run_of_unsignedRun ((bind_of_ok (get_eq_ok.mpr ⟨rfl, rfl⟩)).symm.trans h)
    exact ⟨bytes, ⟨hrun, (hscaled bytes).symm.trans hvalue⟩, hoffers, hspan⟩
  · rintro ⟨bytes, ⟨hrun, hvalue⟩, hoffers, rfl⟩
    have hfits : 0 + unsignedValue bytes * 2 ^ 0 < UInt64.size := by
      rw [hscaled, hvalue]
      exact n.toNat_lt
    refine (bind_of_ok (get_eq_ok.mpr ⟨rfl, rfl⟩)).trans ?_
    rw [unsignedRun_of_run hrun hoffers.length_le hfits hoffers, hscaled, hvalue,
      UInt64.ofNat_toNat]

theorem uleb128_of_begins {n : Nat} (hn : n < UInt64.size)
    (h : span.Begins space (encodeUnsigned n)) :
    uleb128 space span = .ok (UInt64.ofNat n) (span.after (encodeUnsigned n).length) := by
  obtain ⟨hrun, hvalue⟩ := encodeUnsigned_spec n
  exact uleb128_eq_ok.mpr
    ⟨_, ⟨hrun, hvalue.trans (UInt64.toNat_ofNat_of_lt' hn).symm⟩, h.offers, rfl⟩

end Unsigned

section Signed

theorem signedValue_cons (byte : UInt8) {bytes : List UInt8} (h : IsRun bytes) :
    signedValue (byte :: bytes) = group byte + 128 * signedValue bytes := by
  cases h <;> rfl

theorem signedValue_emod (h : IsRun bytes) {byte : UInt8} (hhead : bytes.head? = some byte) :
    signedValue bytes % 128 = group byte := by
  cases h with
  | last =>
    cases hhead
    have hgroup := group_lt byte
    unfold signedValue
    split <;> omega
  | more _ hrest =>
    cases hhead
    have hgroup := group_lt byte
    rw [signedValue_cons byte hrest]
    omega

theorem toNat_or_shiftLeft {value : Word} {shift : Nat} (hshift : shift < 64)
    (hvalue : value.toNat < 2 ^ shift) (g : Nat) :
    (value ||| UInt64.ofNat g <<< UInt64.ofNat shift).toNat =
      (value.toNat + g * 2 ^ shift) % 2 ^ 64 := by
  have hplaces : (UInt64.ofNat shift).toNat % 64 = shift := by
    rw [UInt64.toNat_ofNat_of_lt' (Nat.lt_of_lt_of_le hshift (by decide))]
    exact Nat.mod_eq_of_lt hshift
  have hpow : 2 ^ 64 = 2 ^ (64 - shift) * 2 ^ shift := by
    rw [← Nat.pow_add, Nat.sub_add_cancel (Nat.le_of_lt hshift)]
  have hbits : (UInt64.ofNat g <<< UInt64.ofNat shift).toNat =
      2 ^ shift * (g % 2 ^ (64 - shift)) := by
    rw [UInt64.toNat_shiftLeft, hplaces, UInt64.toNat_ofNat', Nat.shiftLeft_eq, Nat.mod_mul_mod,
      hpow, Nat.mul_mod_mul_right, Nat.mul_comm]
  have hsum : value.toNat + g * 2 ^ shift =
      2 ^ shift * (g % 2 ^ (64 - shift)) + value.toNat + g / 2 ^ (64 - shift) * 2 ^ 64 := by
    have hg : (2 ^ (64 - shift) * (g / 2 ^ (64 - shift)) + g % 2 ^ (64 - shift)) * 2 ^ shift =
        g * 2 ^ shift := by rw [Nat.div_add_mod]
    rw [Nat.add_mul, Nat.mul_comm (2 ^ (64 - shift)), Nat.mul_assoc, ← hpow,
      Nat.mul_comm (g % _)] at hg
    omega
  have hlt : 2 ^ shift * (g % 2 ^ (64 - shift)) + value.toNat < 2 ^ 64 := by
    have hg : g % 2 ^ (64 - shift) < 2 ^ (64 - shift) := Nat.mod_lt _ (Nat.two_pow_pos _)
    have hle := Nat.mul_le_mul_left (2 ^ shift) (Nat.succ_le_of_lt hg)
    rw [Nat.mul_comm _ (2 ^ (64 - shift)), ← hpow, Nat.mul_succ] at hle
    omega
  rw [UInt64.toNat_or, hbits, Nat.or_comm, ← Nat.two_pow_add_eq_or_of_lt hvalue, hsum,
    Nat.add_mul_mod_self_right]
  exact (Nat.mod_eq_of_lt hlt).symm

/-- A word is read in two's complement as any number that it is modulo what a
word can hold. -/
theorem toInt64_eq {value : Word} {n : Int} (h : (value.toNat : Int) = n % 2 ^ 64) :
    value.toInt64 = Int64.ofInt n := by
  apply Int64.toInt_inj.mp
  rw [Int64.toInt_ofInt]
  change value.toBitVec.toInt = n.bmod (2 ^ 64)
  rw [BitVec.toInt_eq_toNat_bmod]
  change (value.toNat : Int).bmod (2 ^ 64) = n.bmod (2 ^ 64)
  rw [h]
  exact Int.emod_bmod n (2 ^ 64)

/-- What has been collected, with a sign or without, is known modulo what a word
can hold. -/
structure Collects (value : Word) (shift : Nat) (low : Int) : Prop where
  value : (value.toNat : Int) = low % 2 ^ 64
  nonneg : 0 ≤ low
  lt : low < 2 ^ shift

variable {value : Word} {shift : Nat} {low : Int}

theorem two_pow_le (h : shift ≤ 64) : (2 : Int) ^ shift ≤ 2 ^ 64 := by
  exact_mod_cast Nat.pow_le_pow_right (by decide) h

theorem emod_add_mul_two_pow (h : 64 ≤ shift) (low g : Int) :
    (low + g * 2 ^ shift) % 2 ^ 64 = low % 2 ^ 64 := by
  have hpow : (2 : Int) ^ shift = 2 ^ (shift - 64) * 2 ^ 64 := by
    rw [← Int.pow_add, Nat.sub_add_cancel h]
  rw [hpow, ← Int.mul_assoc, Int.add_mul_emod_self_right]

theorem Collects.toNat_lt (h : Collects value shift low) (hshift : shift < 64) :
    (value.toNat : Int) = low ∧ value.toNat < 2 ^ shift := by
  have hle := two_pow_le (Nat.le_of_lt hshift)
  have hvalue : (value.toNat : Int) = low := by
    rw [h.value]
    exact Int.emod_eq_of_lt h.nonneg (Int.lt_of_lt_of_le h.lt hle)
  refine ⟨hvalue, ?_⟩
  have hlt := h.lt
  rw [← hvalue] at hlt
  exact_mod_cast hlt

theorem Collects.or_shiftLeft (h : Collects value shift low) (hshift : shift < 64) (g : Nat) :
    ((value ||| UInt64.ofNat g <<< UInt64.ofNat shift).toNat : Int) =
      (low + g * 2 ^ shift) % 2 ^ 64 := by
  obtain ⟨hvalue, hlt⟩ := h.toNat_lt hshift
  rw [toNat_or_shiftLeft hshift hlt g, Int.natCast_emod, Int.natCast_add, Int.natCast_mul,
    Int.natCast_pow, hvalue]
  rfl

theorem Collects.next (h : Collects value shift low) {g : Nat} (hg : g < 128) :
    Collects (if shift < 64 then value ||| UInt64.ofNat g <<< UInt64.ofNat shift else value)
      (shift + 7) (low + g * 2 ^ shift) := by
  have hpow : (0 : Int) ≤ 2 ^ shift := Int.pow_nonneg (by decide)
  have hscaled : (g : Int) * 2 ^ shift ≤ 127 * 2 ^ shift :=
    Int.mul_le_mul_of_nonneg_right (by omega) hpow
  have hscaled' : 0 ≤ (g : Int) * 2 ^ shift := Int.mul_nonneg (by omega) hpow
  have hlow := h.nonneg
  have hlt := h.lt
  refine ⟨?_, by omega, ?_⟩
  · by_cases hshift : shift < 64
    · rw [if_pos hshift]
      exact h.or_shiftLeft hshift g
    · rw [if_neg hshift, emod_add_mul_two_pow (Nat.le_of_not_lt hshift)]
      exact h.value
  · rw [Int.pow_add]
    omega

/-- Groups above those of a word are all zeros or all ones, if the number fits. -/
theorem Collects.checked (h : Collects value shift low) {n : Int}
    (hfrom : -2 ^ 63 ≤ low + n * 2 ^ shift) (hto : low + n * 2 ^ shift < 2 ^ 63)
    {g : Nat} (hg : n % 128 = g) : ¬ (64 ≤ shift ∧ g ≠ 0 ∧ g ≠ 127) := by
  rintro ⟨hshift, hzero, hones⟩
  have hpow : (2 : Int) ^ 64 ≤ 2 ^ shift := by
    exact_mod_cast Nat.pow_le_pow_right (by decide) hshift
  have hlow := h.nonneg
  have hlt := h.lt
  have hn : n = 0 ∨ n = -1 := by
    rcases Int.lt_or_le n 1 with hn | hn
    · rcases Int.lt_or_le n (-1) with hn' | hn'
      · have hscaled : n * 2 ^ shift ≤ -2 * 2 ^ shift :=
          Int.mul_le_mul_of_nonneg_right (by omega) (by omega)
        omega
      · omega
    · have hscaled : 1 * 2 ^ shift ≤ n * 2 ^ shift :=
        Int.mul_le_mul_of_nonneg_right hn (by omega)
      omega
  omega

/-- The last group gives the sign, which fills what is left of the word. -/
theorem Collects.last (h : Collects value shift low) (byte : UInt8) :
    let collected :=
      if shift < 64 then value ||| UInt64.ofNat (group byte) <<< UInt64.ofNat shift else value
    ((if shift + 7 < 64 ∧ 64 ≤ group byte then collected ||| (-1) <<< UInt64.ofNat (shift + 7)
      else collected).toNat : Int) = (low + signedValue [byte] * 2 ^ shift) % 2 ^ 64 := by
  intro collected
  have hnext := h.next (group_lt byte)
  have hpow : (2 : Int) ^ (shift + 7) = 2 ^ shift * 128 := Int.pow_add 2 shift 7
  by_cases hsign : shift + 7 < 64 ∧ 64 ≤ group byte
  · have hvalue : signedValue [byte] = group byte - 128 := if_pos hsign.2
    have hones := hnext.or_shiftLeft hsign.1 (2 ^ 64 - 1)
    have hsum : low + (group byte : Int) * 2 ^ shift +
        ((2 ^ 64 - 1 : Nat) : Int) * 2 ^ (shift + 7) =
          low + ((group byte : Int) - 128) * 2 ^ shift + 2 ^ (shift + 7) * 2 ^ 64 := by
      have hcast : ((2 ^ 64 - 1 : Nat) : Int) = 2 ^ 64 - 1 := by decide
      rw [hcast, Int.sub_mul, Int.sub_mul, hpow]
      omega
    rw [hsum, Int.add_mul_emod_self_right] at hones
    rw [if_pos hsign, hvalue]
    exact hones
  · rw [if_neg hsign, hnext.value]
    by_cases hnegative : 64 ≤ group byte
    · have hvalue : signedValue [byte] = group byte - 128 := if_pos hnegative
      have hsum : low + ((group byte : Int) - 128) * 2 ^ shift =
          low + group byte * 2 ^ shift + -1 * 2 ^ (shift + 7) := by
        rw [Int.sub_mul, hpow]
        omega
      have htop : 64 ≤ shift + 7 := by omega
      rw [hvalue, hsum, emod_add_mul_two_pow htop]
    · have hvalue : signedValue [byte] = group byte := if_neg hnegative
      rw [hvalue]

/-- The groups that lie wholly above a word, if the first one is `shift` bits up, are
all zeros or all ones. -/
def Extends : (shift : Nat) → List UInt8 → Prop
  | _, [] => True
  | shift, byte :: bytes =>
    ¬ (64 ≤ shift ∧ group byte ≠ 0 ∧ group byte ≠ 127) ∧ Extends (shift + 7) bytes

instance Extends.decidable : (shift : Nat) → (bytes : List UInt8) → Decidable (Extends shift bytes)
  | _, [] => .isTrue trivial
  | shift, _ :: bytes =>
    have := Extends.decidable (shift + 7) bytes
    inferInstanceAs (Decidable (¬ _ ∧ _))

theorem add_signedValue_cons {byte : UInt8} (hrest : IsRun bytes) (low : Int) (shift : Nat) :
    low + signedValue (byte :: bytes) * 2 ^ shift =
      low + group byte * 2 ^ shift + signedValue bytes * 2 ^ (shift + 7) := by
  rw [signedValue_cons byte hrest, Int.add_mul, Int.pow_add, Int.mul_comm 128, Int.mul_assoc,
    Int.mul_comm 128, Int.add_assoc]
  rfl

theorem extends_of_reach (hrun : IsRun bytes) (hcollects : Collects value shift low)
    (hfrom : -2 ^ 63 ≤ low + signedValue bytes * 2 ^ shift)
    (hto : low + signedValue bytes * 2 ^ shift < 2 ^ 63) : Extends shift bytes := by
  induction hrun generalizing shift value low with
  | last hlast => exact ⟨hcollects.checked hfrom hto (signedValue_emod (.last hlast) rfl), trivial⟩
  | @more byte bytes hlast hrest ih =>
    have hcheck := hcollects.checked hfrom hto (signedValue_emod (.more hlast hrest) rfl)
    rw [add_signedValue_cons hrest] at hfrom hto
    exact ⟨hcheck, ih (hcollects.next (group_lt byte)) hfrom hto⟩

theorem signedRun_of_run (hrun : IsRun bytes) (hcollects : Collects value shift low)
    {left : Nat} (hleft : bytes.length ≤ left) (hextends : Extends shift bytes)
    (h : span.Offers space bytes) :
    signedRun start left shift value space span =
      .ok (Int64.ofInt (low + signedValue bytes * 2 ^ shift)) (span.after bytes.length) := by
  induction hrun generalizing span left shift value low with
  | @last byte hlast =>
    obtain ⟨left, rfl, -⟩ := exists_left hleft
    refine bind_eq_ok.mpr ⟨byte, _, (Span.offers_cons.mp h).1, ?_⟩
    dsimp only
    rw [if_neg hextends.1, if_pos hlast]
    exact pure_eq_ok.mpr ⟨toInt64_eq (hcollects.last byte), rfl⟩
  | @more byte bytes hlast hrest ih =>
    obtain ⟨left, rfl, hroom⟩ := exists_left hleft
    have hsplit := Span.offers_cons.mp h
    rw [add_signedValue_cons hrest]
    refine bind_eq_ok.mpr ⟨byte, _, hsplit.1, ?_⟩
    dsimp only
    rw [if_neg hextends.1, if_neg (by rw [hlast]; nofun)]
    refine (ih (hcollects.next (group_lt byte)) hroom hextends.2
      hsplit.2).trans ?_
    rw [Span.after_after, Nat.add_comm 1]
    rfl

theorem exists_run_of_signedRun {left : Nat} {n : Int64} {span' : Span}
    (hcollects : Collects value shift low)
    (h : signedRun start left shift value space span = .ok n span') :
    ∃ bytes, IsRun bytes ∧ Extends shift bytes ∧ span.Offers space bytes ∧
      Int64.ofInt (low + signedValue bytes * 2 ^ shift) = n ∧ span' = span.after bytes.length := by
  induction left generalizing span shift value low with
  | zero =>
    obtain ⟨_, _, -, h⟩ := bind_eq_ok.mp h
    exact (throw_eq_ok.mp h).elim
  | succ left ih =>
    obtain ⟨byte, middle, hbyte, h⟩ := bind_eq_ok.mp h
    obtain rfl : span.after 1 = middle := (u8_eq_ok.mp hbyte).2.2
    dsimp only at h
    by_cases hcheck : 64 ≤ shift ∧ group byte ≠ 0 ∧ group byte ≠ 127
    · rw [if_pos hcheck] at h
      obtain ⟨_, _, hthrow, -⟩ := bind_eq_ok.mp h
      exact (throw_eq_ok.mp hthrow).elim
    · rw [if_neg hcheck] at h
      by_cases hlast : isLast byte = true
      · rw [if_pos hlast] at h
        obtain ⟨rfl, rfl⟩ := pure_eq_ok.mp h
        exact ⟨[byte], .last hlast, ⟨hcheck, trivial⟩, Span.offers_single hbyte,
          (toInt64_eq (hcollects.last byte)).symm, rfl⟩
      · rw [if_neg hlast] at h
        obtain ⟨bytes, hrun, hextends, hoffers, hvalue, rfl⟩ :=
          ih (hcollects.next (group_lt byte)) h
        refine ⟨byte :: bytes, .more (Bool.eq_false_iff.mpr hlast) hrun, ⟨hcheck, hextends⟩,
          Span.offers_cons.mpr ⟨hbyte, hoffers⟩, ?_, ?_⟩
        · rw [add_signedValue_cons hrun, hvalue]
        · rw [Span.after_after, List.length_cons, Nat.add_comm]

theorem encodeSigned_of_lt {n : Int} (h : -64 ≤ n ∧ n < 64) :
    encodeSigned n = [UInt8.ofNat (n % 128).toNat] := by
  rw [encodeSigned, if_pos h]

theorem encodeSigned_spec (n : Int) :
    IsRun (encodeSigned n) ∧ signedValue (encodeSigned n) = n := by
  induction n using encodeSigned.induct with
  | case1 n hlast =>
    obtain ⟨g, hg⟩ : ∃ g : Nat, (n % 128).toNat = g := ⟨_, rfl⟩
    have hgroup : g < 128 := by omega
    rw [encodeSigned_of_lt hlast, hg]
    refine ⟨.last (isLast_last hgroup), ?_⟩
    unfold signedValue
    rw [group_last hgroup]
    split <;> omega
  | case2 n hmore ih =>
    obtain ⟨hrun, hvalue⟩ := ih
    obtain ⟨g, hg⟩ : ∃ g : Nat, (n % 128).toNat = g := ⟨_, rfl⟩
    have hgroup : g < 128 := by omega
    rw [encodeSigned, if_neg hmore, hg]
    refine ⟨.more (isLast_more hgroup) hrun, ?_⟩
    rw [signedValue_cons _ hrun, group_more hgroup, hvalue]
    omega

theorem collects_zero : Collects 0 0 0 := ⟨rfl, Int.le_refl 0, by decide⟩

/-- Of a word, however its run is padded, nothing but the sign lies above the word. -/
theorem extends_of_word {n : Int64} (hrun : IsRun bytes) (hvalue : signedValue bytes = n.toInt) :
    Extends 0 bytes := by
  have hfrom := n.le_toInt
  have hto := n.toInt_lt
  apply extends_of_reach hrun collects_zero
  · rw [hvalue]
    omega
  · rw [hvalue]
    omega

theorem extends_encodeSigned (n : Int64) : Extends 0 (encodeSigned n.toInt) :=
  extends_of_word (encodeSigned_spec n.toInt).1 (encodeSigned_spec n.toInt).2

/-- A number is read exactly if a run that only extends its sign above a word lies
ahead and is the number modulo what a word can hold. -/
theorem sleb128_eq_ok {n : Int64} {span' : Span} :
    sleb128 space span = .ok n span' ↔
      ∃ bytes, (IsRun bytes ∧ Extends 0 bytes ∧ Int64.ofInt (signedValue bytes) = n) ∧
        span.Offers space bytes ∧ span' = span.after bytes.length := by
  have hscaled (bytes : List UInt8) :
      0 + signedValue bytes * 2 ^ 0 = signedValue bytes := by omega
  constructor
  · intro h
    obtain ⟨bytes, hrun, hextends, hoffers, hvalue, hspan⟩ := exists_run_of_signedRun
      collects_zero ((bind_of_ok (get_eq_ok.mpr ⟨rfl, rfl⟩)).symm.trans h)
    rw [hscaled] at hvalue
    exact ⟨bytes, ⟨hrun, hextends, hvalue⟩, hoffers, hspan⟩
  · rintro ⟨bytes, ⟨hrun, hextends, rfl⟩, hoffers, rfl⟩
    refine (bind_of_ok (get_eq_ok.mpr ⟨rfl, rfl⟩)).trans ?_
    rw [signedRun_of_run hrun collects_zero hoffers.length_le hextends hoffers, hscaled]

theorem sleb128_of_run {n : Int64} (hrun : IsRun bytes) (hvalue : signedValue bytes = n.toInt)
    (h : span.Offers space bytes) : sleb128 space span = .ok n (span.after bytes.length) := by
  have hword : Int64.ofInt (signedValue bytes) = n := by rw [hvalue, Int64.ofInt_toInt]
  exact sleb128_eq_ok.mpr ⟨bytes, ⟨hrun, extends_of_word hrun hvalue, hword⟩, h, rfl⟩

theorem sleb128_of_begins {n : Int64} (h : span.Begins space (encodeSigned n.toInt)) :
    sleb128 space span = .ok n (span.after (encodeSigned n.toInt).length) :=
  sleb128_of_run (encodeSigned_spec n.toInt).1 (encodeSigned_spec n.toInt).2 h.offers

end Signed

end Unwinding.Reading
