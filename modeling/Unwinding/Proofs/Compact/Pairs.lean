import Mathlib.Data.List.Flatten
import Unwinding.Memory.Snapshot
import Unwinding.Proofs.CallFrame.Language
import Unwinding.Proofs.CallFrame.Rules
import Unwinding.Proofs.CallFrame.Straight
import Unwinding.Proofs.CallFrame.Table
import Unwinding.Proofs.Registers.Restored

/-!
# Registers saved in pairs

Where a pair is saved depends on every flag before its own, on the class of no
register, and on whether there is a frame record. All of it comes down to one list:
the registers in the order of the words that hold them, from the frame address
downward. A program that saves the registers of the list in these words gives the
same row as the encoding, and applying the row loads each of them from a word of its
own, with no gap between the words. Whoever is not in the list keeps its value.
-/

namespace Unwinding

namespace Compact.Arm64

open RowMachine

/-- The registers of the flagged ones among some pairs. -/
def flagged (encoding : CompactEncoding) (candidates : List (Nat × Register × Register)) :
    List Register :=
  (candidates.filter fun pair => encoding.field pair.1 1 ≠ 0).flatMap fun pair =>
    [pair.2.1, pair.2.2]

/-- The flags, each with the two registers that it saves: x19 to x28, and d8 to d15. -/
def flags : List (Nat × Register × Register) :=
  [(0, 19, 20), (1, 21, 22), (2, 23, 24), (3, 25, 26), (4, 27, 28),
    (8, 72, 73), (9, 74, 75), (10, 76, 77), (11, 78, 79)]

theorem pairs_eq : pairs = flags := rfl

/-- The registers in the words below the frame address, downward. Where there is a
frame record, it comes first. -/
def saved (encoding : CompactEncoding) : List Register :=
  if encoding.mode = 4 then 30 :: 29 :: flagged encoding flags else flagged encoding flags

/-- The register that the frame address is told from. -/
def base (encoding : CompactEncoding) : Register := if encoding.mode = 4 then 29 else 31

/-- How far the frame address is from there. -/
def size (encoding : CompactEncoding) : Int64 :=
  if encoding.mode = 4 then 16 else Int64.ofInt (16 * encoding.field 12 12)

/-- Where word `i` is, from the frame address. -/
def below (i : Nat) : Int64 := Int64.ofInt (-8 * (i + 1))

def slots (encoding : CompactEncoding) : List (Register × Int64) :=
  (saved encoding).mapIdx fun i r => (r, below i)

/-- The entry holds a program that says the same as the encoding, with the saves in
any order. -/
structure Describes (encoding : CompactEncoding) (space : AddressSpace) (bases : Bases)
    (common : CommonEntry) (entry : FrameEntry) : Prop where
  returnAddress : common.returnAddress = 30
  ordinary : common.isSignalFrame = false
  program : ∃ (initial own : List Instruction) (members : List (Register × Int64)),
    Instruction.items (common.dialect bases .aarch64) space common.instructions =
      initial.map .ok ∧
    Instruction.items (common.dialect bases .aarch64) space entry.instructions = own.map .ok ∧
    (initial ++ own).filter (· ≠ .nop) = saving (base encoding) (size encoding) members ∧
    members.Perm (slots encoding)

variable {space : AddressSpace} {encoding : CompactEncoding} {start : Word} {row : Row}
  {candidates : List (Nat × Register × Register)}

/-! ## The list -/

/-- All registers that an encoding can save, in the order of their words. -/
def preserved : List Register := 30 :: 29 :: flags.flatMap fun pair => [pair.2.1, pair.2.2]

theorem saved_sublist (encoding : CompactEncoding) : (saved encoding).Sublist preserved := by
  have hflagged : (flagged encoding flags).Sublist
      (flags.flatMap fun pair => [pair.2.1, pair.2.2]) := List.filter_sublist.flatMap _
  unfold saved
  split
  · exact (hflagged.cons_cons 29).cons_cons 30
  · exact (hflagged.cons 29).cons 30

theorem nodup_saved (encoding : CompactEncoding) : (saved encoding).Nodup :=
  (saved_sublist encoding).nodup (by decide)

theorem length_saved_le (encoding : CompactEncoding) : (saved encoding).length ≤ 20 :=
  (saved_sublist encoding).length_le

theorem preserved_bounds : ∀ r ∈ preserved, r ≤ 79 ∧ r ≠ 31 ∧
    ∃ s, Arch.slot .aarch64 r = some s ∧ s ≠ .ip := by decide

theorem saved_bounds {r : Register} (h : r ∈ saved encoding) : r ≤ 79 ∧ r ≠ 31 ∧
    ∃ s, Arch.slot .aarch64 r = some s ∧ s ≠ .ip :=
  preserved_bounds r ((saved_sublist encoding).subset h)

theorem mem_flagged {r : Register} : r ∈ flagged encoding candidates ↔
    ∃ pair ∈ candidates, encoding.field pair.1 1 ≠ 0 ∧ (r = pair.2.1 ∨ r = pair.2.2) := by
  unfold flagged
  simp only [List.mem_flatMap, List.mem_filter, decide_eq_true_eq, List.mem_cons,
    List.not_mem_nil, or_false, and_assoc]

theorem not_mem_flagged {r : Register} (h : ∀ pair ∈ candidates, r ≠ pair.2.1 ∧ r ≠ pair.2.2) :
    r ∉ flagged encoding candidates := by
  rw [mem_flagged]
  rintro ⟨pair, hpair, -, hr | hr⟩
  · exact (h pair hpair).1 hr
  · exact (h pair hpair).2 hr

theorem flags_apart : ∀ pair ∈ flags, ∀ r, r = pair.2.1 ∨ r = pair.2.2 → r ≠ 29 ∧ r ≠ 30 ∧
    ∀ other ∈ flags, r = other.2.1 ∨ r = other.2.2 → other.1 = pair.1 := by
  have hall : ∀ pair ∈ flags, ∀ r ∈ [pair.2.1, pair.2.2], r ≠ 29 ∧ r ≠ 30 ∧
      ∀ other ∈ flags, r = other.2.1 ∨ r = other.2.2 → other.1 = pair.1 := by decide
  exact fun pair hpair r hr => hall pair hpair r (by simpa using hr)

theorem not_mem_saved {pair : Nat × Register × Register} (hpair : pair ∈ flags)
    (hclear : encoding.field pair.1 1 = 0) {r : Register} (hr : r = pair.2.1 ∨ r = pair.2.2) :
    r ∉ saved encoding := by
  obtain ⟨h29, h30, hapart⟩ := flags_apart pair hpair r hr
  have hflagged : r ∉ flagged encoding flags := by
    rw [mem_flagged]
    rintro ⟨other, hother, hset, hnamed⟩
    exact hset (hapart other hother hnamed ▸ hclear)
  unfold saved
  split
  · simp only [List.mem_cons, not_or]
    exact ⟨h30, h29, hflagged⟩
  · exact hflagged

theorem base_eq (encoding : CompactEncoding) : base encoding = 29 ∨ base encoding = 31 := by
  unfold base
  split
  · exact .inl rfl
  · exact .inr rfl

theorem base_le (encoding : CompactEncoding) : base encoding ≤ 31 := by
  unfold base
  split <;> decide

/-! ## The row -/

/-- The row with nothing but the frame address. -/
def bareRow (encoding : CompactEncoding) : Row :=
  { Row.empty 30 with cfa := .registerOffset (base encoding) (size encoding) }

def slotRules (encoding : CompactEncoding) : List (Register × Rule) :=
  (slots encoding).map fun (r, offset) => (r, .inCfa offset)

theorem slotRules_eq :
    slotRules encoding = (saved encoding).mapIdx fun i r => (r, .inCfa (below i)) := by
  unfold slotRules slots
  refine List.ext_getElem? fun i => ?_
  rw [List.getElem?_map, List.getElem?_mapIdx, List.getElem?_mapIdx]
  cases (saved encoding)[i]? <;> rfl

theorem keys_slotRules : (slotRules encoding).map Prod.fst = saved encoding := by
  rw [slotRules_eq]
  refine List.ext_getElem? fun i => ?_
  rw [List.getElem?_map, List.getElem?_mapIdx]
  cases (saved encoding)[i]? <;> rfl

theorem slotRules_bounds : ∀ member ∈ slotRules encoding, member.1 ≤ 79 := by
  intro member hmember
  have hkey : member.1 ∈ saved encoding := by
    rw [← keys_slotRules]
    exact List.mem_map.mpr ⟨member, hmember, rfl⟩
  exact (saved_bounds hkey).1

/-- The pairs go on in the words behind the first `k`. -/
theorem saves_eq (encoding : CompactEncoding) (candidates : List (Nat × Register × Register))
    (k : Nat) : saves encoding candidates (-(k + 1)) =
      (flagged encoding candidates).mapIdx fun i r => (r, .inCfa (below (k + i))) := by
  induction candidates generalizing k with
  | nil => rfl
  | cons pair candidates ih =>
    obtain ⟨flag, first, second⟩ := pair
    unfold saves
    split
    · rename_i hclear
      have hskip : flagged encoding ((flag, first, second) :: candidates) =
          flagged encoding candidates := by
        unfold flagged
        rw [List.filter_cons_of_neg (by simpa using hclear)]
      rw [ih, hskip]
    · rename_i hset
      have htake : flagged encoding ((flag, first, second) :: candidates) =
          first :: second :: flagged encoding candidates := by
        unfold flagged
        rw [List.filter_cons_of_pos (by simpa using hset)]
        rfl
      have hnext : (-(k + 1) : Int) - 2 = -((k + 2 : Nat) + 1) := by omega
      rw [htake, hnext, ih, List.mapIdx_cons, List.mapIdx_cons]
      have hfirst : Int64.ofInt (8 * -(k + 1)) = below (k + 0) := congrArg Int64.ofInt (by omega)
      have hsecond : Int64.ofInt (8 * (-(k + 1) - 1)) = below (k + (0 + 1)) :=
        congrArg Int64.ofInt (by omega)
      rw [hfirst, hsecond]
      refine congrArg _ (congrArg _ (congrFun (congrArg _ (funext fun i => funext fun r => ?_)) _))
      rw [Nat.add_assoc, Nat.add_comm 2 i]

theorem leaf_eq (hmode : encoding.mode ≠ 4) :
    leaf encoding = ((bareRow encoding).setRules (slotRules encoding)).mapError .cfi := by
  have hsaves := saves_eq encoding flags 0
  simp only [Nat.zero_add] at hsaves
  rw [slotRules_eq]
  unfold saved bareRow base size leaf
  rw [if_neg hmode, if_neg hmode, if_neg hmode, ← hsaves, pairs_eq]
  rfl

/-- The two words of the frame record change places without effect. -/
theorem frame_eq (hmode : encoding.mode = 4) :
    frame encoding = ((bareRow encoding).setRules (slotRules encoding)).mapError .cfi := by
  have hsaves := saves_eq encoding flags 2
  have hlisted : slotRules encoding =
      (30, .inCfa (-8)) :: (29, .inCfa (-16)) :: saves encoding flags (-3) := by
    rw [slotRules_eq]
    unfold saved
    rw [if_pos hmode, List.mapIdx_cons, List.mapIdx_cons]
    refine congrArg _ (congrArg _ (Eq.trans ?_ hsaves.symm))
    refine congrFun (congrArg _ (funext fun i => funext fun r => ?_)) _
    rw [Nat.add_comm 2 i]
  have hswap : (slotRules encoding).Perm
      ((29, .inCfa (-16)) :: (30, .inCfa (-8)) :: saves encoding flags (-3)) := by
    rw [hlisted]
    exact .swap _ _ _
  have hsame := Row.setRules_perm hswap (keys_slotRules ▸ nodup_saved encoding)
    (fun member hmember => Nat.lt_of_le_of_lt (slotRules_bounds member hmember) (by decide))
    (bareRow encoding)
  rw [hsame]
  unfold bareRow base size frame
  rw [if_pos hmode, if_pos hmode, pairs_eq]
  rfl

theorem decode_eq_row : encoding.decode .aarch64 space start = .ok (.row row) ↔
    (encoding.mode = 2 ∨ encoding.mode = 4) ∧
      (bareRow encoding).setRules (slotRules encoding) = .ok row := by
  change decode encoding = _ ↔ _
  unfold decode
  split
  case h_1 hmode => simp [hmode]
  case h_2 hmode =>
    rw [leaf_eq (by rw [hmode]; decide)]
    simp [hmode]
  case h_3 hmode => simp [hmode]
  case h_4 hmode =>
    rw [frame_eq hmode]
    simp [hmode]
  case h_5 hleaf _ hframe =>
    refine iff_of_false nofun ?_
    rintro ⟨hmode | hmode, -⟩
    · exact hleaf hmode
    · exact hframe hmode

/-- The row, rule by rule. -/
structure PairsRow (encoding : CompactEncoding) (row : Row) : Prop where
  cfa : row.cfa = .registerOffset (base encoding) (size encoding)
  returnAddress : row.returnAddress = 30
  raSigned : row.raSigned = false
  ruled : ∀ i r, (saved encoding)[i]? = some r → row.rule r = .inCfa (below i)
  unruled : ∀ r, r ∉ saved encoding → row.rule r = .unused

theorem pairsRow_of_setRules (h : (bareRow encoding).setRules (slotRules encoding) = .ok row) :
    PairsRow encoding row := by
  have hnodup : ((slotRules encoding).map Prod.fst).Nodup := keys_slotRules ▸ nodup_saved encoding
  obtain ⟨hruled, hunruled⟩ := Row.rule_setRules hnodup h
  obtain ⟨values, rfl⟩ := Row.setRules_rest h
  refine ⟨rfl, rfl, rfl, fun i r hr => ?_, fun r hr => ?_⟩
  · refine hruled (r, .inCfa (below i)) (List.mem_of_getElem? (i := i) ?_)
    rw [slotRules_eq, List.getElem?_mapIdx, hr]
    rfl
  · rw [hunruled r (by rwa [keys_slotRules])]
    exact Row.rule_empty 30 r

theorem exists_row (hmode : encoding.mode = 2 ∨ encoding.mode = 4) :
    ∃ row, encoding.decode .aarch64 space start = .ok (.row row) := by
  obtain ⟨row, hrow⟩ := Row.setRules_exists (fun member hmember =>
    Nat.lt_of_le_of_lt (slotRules_bounds member hmember) (by decide)) (bareRow encoding)
  exact ⟨row, decode_eq_row.mpr ⟨hmode, hrow⟩⟩

theorem inForce_of_describes (hrow : (bareRow encoding).setRules (slotRules encoding) = .ok row)
    {bases : Bases} {common : CommonEntry} {entry : FrameEntry}
    (h : Describes encoding space bases common entry) (pc : Word) :
    Row.inForce .aarch64 space bases common entry pc = .ok row := by
  obtain ⟨initial, own, members, hinitial, hown, hprogram, hperm⟩ := h.program
  have hrules : (members.map fun (r, offset) => (r, Rule.inCfa offset)).Perm
      (slotRules encoding) := hperm.map _
  have hbounds : ∀ member ∈ members.map fun (r, offset) => (r, Rule.inCfa offset),
      member.1 ≤ 79 := fun member hmember => slotRules_bounds member (hrules.mem_iff.mp hmember)
  have hnodup : ((members.map fun (r, offset) => (r, Rule.inCfa offset)).map Prod.fst).Nodup := by
    rw [(hrules.map Prod.fst).nodup_iff, keys_slotRules]
    exact nodup_saved encoding
  have hbase : base encoding ≤ Arch.aarch64.highest :=
    Nat.le_trans (base_le encoding) (by decide)
  rw [Row.inForce_saving hinitial hown hprogram hbase (fun member hmember => ?_) pc,
    h.returnAddress, h.ordinary, Row.setRules_perm hrules hnodup fun member hmember =>
      Nat.lt_of_le_of_lt (hbounds member hmember) (by decide)]
  · exact hrow
  · exact Nat.le_trans (hbounds _ (List.mem_map.mpr ⟨member, hmember, rfl⟩)) (by decide)

/-! ## The words -/

/-- The address is in word `i` below the frame address. -/
def Covers (cfa : Word) (i : Nat) (address : Word) : Prop :=
  (address - (cfa - 8 * UInt64.ofNat (i + 1))).toNat < 8

theorem below_address (cfa : Word) (i : Nat) :
    cfa + (below i).toUInt64 = cfa - 8 * UInt64.ofNat (i + 1) := by
  have height : (Int64.ofInt 8).toUInt64 = 8 := rfl
  have hbelow : below i = -(Int64.ofInt 8 * Int64.ofInt ((i + 1 : Nat) : Int)) := by
    unfold below
    rw [← Int64.ofInt_mul, ← Int64.ofInt_neg]
    exact congrArg Int64.ofInt (by omega)
  rw [hbelow, Int64.toUInt64_neg, Int64.toUInt64_mul, height, toUInt64_ofInt_natCast,
    ← UInt64.sub_eq_add_neg]

/-- Counted from the frame address downward, every eight bytes are a word. -/
theorem covers_iff {cfa address : Word} {i : Nat} (hi : i < 20) :
    Covers cfa i address ↔ (cfa - address - 1).toNat / 8 = i := by
  have hturned : address - (cfa - 8 * UInt64.ofNat (i + 1)) =
      8 * UInt64.ofNat (i + 1) - 1 - (cfa - address - 1) := by grind
  have hend : (8 * UInt64.ofNat (i + 1) - 1 : Word).toNat = 8 * i + 7 := by
    rw [UInt64.toNat_sub, UInt64.toNat_mul, UInt64.toNat_ofNat']
    change (2 ^ 64 - 1 + 8 * ((i + 1) % 2 ^ 64) % 2 ^ 64) % 2 ^ 64 = _
    omega
  have hdepth := (cfa - address - 1).toNat_lt
  unfold Covers
  rw [hturned, UInt64.toNat_sub, hend]
  omega

/-- The words are what is below the frame address, and no two of them overlap. Each
register has its own. -/
structure Separate (encoding : CompactEncoding) (cfa : Word) : Prop where
  once : (saved encoding).Nodup
  apart : ∀ i j address, i < (saved encoding).length → j < (saved encoding).length →
    Covers cfa i address → Covers cfa j address → i = j
  contiguous : ∀ address, (∃ i < (saved encoding).length, Covers cfa i address) ↔
    (cfa - address - 1).toNat < 8 * (saved encoding).length

theorem separate (encoding : CompactEncoding) (cfa : Word) : Separate encoding cfa := by
  have hlength := length_saved_le encoding
  refine ⟨nodup_saved encoding, fun i j address hi hj hfirst hsecond => ?_, fun address => ?_⟩
  · rw [covers_iff (by omega)] at hfirst hsecond
    exact hfirst.symm.trans hsecond
  · constructor
    · rintro ⟨i, hi, hcovers⟩
      rw [covers_iff (by omega)] at hcovers
      omega
    · intro hdepth
      have hi : (cfa - address - 1).toNat / 8 < (saved encoding).length := by omega
      exact ⟨_, hi, (covers_iff (by omega)).mpr rfl⟩

/-! ## The caller -/

/-- Where the call left the return address. A frame record has it, and a leaf still
has it in its register. -/
def ReturnsTo (encoding : CompactEncoding) (space : AddressSpace) (old : RegisterFile .aarch64)
    (cfa address : Word) : Prop :=
  if encoding.mode = 4 then space.pointer (cfa - 8) = .ok address else old.get 30 = .ok address

/-- The caller's registers, told from those of the callee: the saved ones have been
loaded, each from its word, and nothing else has changed. The return address is not
loaded into its register. -/
structure Unwinds (encoding : CompactEncoding) (space : AddressSpace)
    (old new : RegisterFile .aarch64) : Prop where
  sp : new.sp = old.getD (base encoding) + (size encoding).toUInt64
  ip : ∃ address, ReturnsTo encoding space old new.sp address ∧
    new.ip = old.authenticate address false
  loaded : ∀ i r, (saved encoding)[i]? = some r → r ≠ 30 → ∃ s, Arch.slot .aarch64 r = some s ∧
    space.load (new.sp - 8 * UInt64.ofNat (i + 1)) s.registerClass = .ok (new.content s)
  kept : ∀ s, s ≠ .ip → Arch.slot .aarch64 (Arch.sp .aarch64) ≠ some s →
    (∀ r ∈ saved encoding, r ≠ 30 → Arch.slot .aarch64 r ≠ some s) →
    new.content s = old.content s

section Apply

variable {old new : RegisterFile .aarch64}

theorem frameAddress_eq (h : PairsRow encoding row) : row.frameAddress space old =
    .ok (old.getD (base encoding) + (size encoding).toUInt64) := by
  unfold Row.frameAddress
  rw [h.cfa]
  rcases base_eq encoding with hbase | hbase <;> rw [hbase] <;> rfl

theorem governs_iff (h : PairsRow encoding row) {r : Register} :
    row.Governs .aarch64 r ↔ r ∈ saved encoding ∧ r ≠ 30 := by
  constructor
  · rintro ⟨-, hra, -, hrule⟩
    rw [h.returnAddress] at hra
    refine ⟨?_, hra⟩
    by_contra hr
    exact hrule (h.unruled r hr)
  · rintro ⟨hr, hra⟩
    obtain ⟨hle, -, s, hslot, hip⟩ := saved_bounds hr
    obtain ⟨i, hi⟩ := List.getElem?_of_mem hr
    refine ⟨Nat.le_trans hle (by decide), ?_, ?_, ?_⟩
    · rwa [h.returnAddress]
    · rw [hslot]
      exact fun heq => hip (Option.some.inj heq)
    · rw [h.ruled i r hi]
      exact nofun

theorem returnsTo_iff (h : PairsRow encoding row) {cfa address : Word} :
    row.ReturnsTo (⟨space, old, cfa⟩ : Callee .aarch64) address ↔
      ReturnsTo encoding space old cfa address := by
  unfold Row.ReturnsTo ReturnsTo
  rw [h.returnAddress]
  by_cases hmode : encoding.mode = 4
  · have hfirst : (saved encoding)[0]? = some 30 := by
      unfold saved
      rw [if_pos hmode]
      rfl
    rw [if_pos hmode, h.ruled 0 30 hfirst, if_neg nofun]
    change (space.pointer (cfa + (below 0).toUInt64)).map RegisterValue.word =
      .ok (.word address) ↔ _
    rw [below_address, Outcome.map_eq_ok]
    change (∃ word, space.pointer (cfa - 8) = .ok word ∧ _) ↔ _
    constructor
    · rintro ⟨_, hread, hword⟩
      cases hword
      exact hread
    · exact fun hread => ⟨address, hread, rfl⟩
  · have habsent : 30 ∉ saved encoding := by
      unfold saved
      rw [if_neg hmode]
      exact not_mem_flagged (by decide)
    rw [if_neg hmode, h.unruled 30 habsent, if_pos rfl]

theorem unwinds_of_apply (h : PairsRow encoding row) (happly : row.apply space old = .ok new) :
    Unwinds encoding space old new := by
  obtain ⟨cfa, hcfa, hrestores⟩ := Row.restores_of_apply happly
  rw [frameAddress_eq h] at hcfa
  cases hcfa
  have hsp : new.sp = old.getD (base encoding) + (size encoding).toUInt64 := by
    refine hrestores.sp fun hgoverned => ?_
    exact (saved_bounds ((governs_iff h).mp hgoverned).1).2.1 rfl
  refine ⟨hsp, ?_, fun i r hi hr => ?_, fun s hs hnsp hfree => ?_⟩
  · obtain ⟨address, hreturns, hip⟩ := hrestores.ip
    rw [returnsTo_iff h, ← hsp] at hreturns
    rw [h.raSigned] at hip
    exact ⟨address, hreturns, hip.trans (UInt64.add_zero _)⟩
  · obtain ⟨s, hslot, hgives⟩ :=
      hrestores.ruled r ((governs_iff h).mpr ⟨List.mem_of_getElem? hi, hr⟩)
    have hloaded := hgives (new.not_reloaded (by decide) space s)
    rw [h.ruled i r hi] at hloaded
    refine ⟨s, hslot, ?_⟩
    rw [hsp, ← below_address]
    exact hloaded
  · refine hrestores.kept s hs hnsp (fun r hgoverned => ?_) (new.not_reloaded (by decide) space s)
    obtain ⟨hr, hra⟩ := (governs_iff h).mp hgoverned
    exact hfree r hr hra

theorem restores_of_unwinds (h : PairsRow encoding row)
    (hunwinds : Unwinds encoding space old new) :
    row.Restores ⟨space, old, old.getD (base encoding) + (size encoding).toUInt64⟩ new where
  ruled r hgoverned := by
    obtain ⟨hr, hra⟩ := (governs_iff h).mp hgoverned
    obtain ⟨i, hi⟩ := List.getElem?_of_mem hr
    obtain ⟨s, hslot, hloaded⟩ := hunwinds.loaded i r hi hra
    refine ⟨s, hslot, fun _ => ?_⟩
    rw [hunwinds.sp, ← below_address] at hloaded
    rw [h.ruled i r hi]
    exact hloaded
  sp _ := hunwinds.sp
  kept s hs hnsp hfree _ :=
    hunwinds.kept s hs hnsp fun r hr hra => hfree r ((governs_iff h).mpr ⟨hr, hra⟩)
  ip := by
    obtain ⟨address, hreturns, hip⟩ := hunwinds.ip
    rw [hunwinds.sp] at hreturns
    refine ⟨address, (returnsTo_iff h).mpr hreturns, ?_⟩
    rw [h.raSigned]
    exact hip.trans (UInt64.add_zero _).symm
  reloaded _ hreloads := nomatch hreloads.1

theorem apply_eq_ok (h : PairsRow encoding row) :
    row.apply space old = .ok new ↔ Unwinds encoding space old new := by
  refine ⟨unwinds_of_apply h, fun hunwinds => ?_⟩
  refine Row.apply_of_restores nofun (frameAddress_eq h) (fun r hra hrule => ?_)
    (restores_of_unwinds h hunwinds)
  have hr : r ∈ saved encoding := by
    by_contra hr
    exact hrule (h.unruled r hr)
  obtain ⟨-, -, s, hslot, hip⟩ := saved_bounds hr
  rw [hslot]
  exact fun heq => hip (Option.some.inj heq)

theorem Unwinds.keeps (h : Unwinds encoding space old new) {r : Register} (hr : r ∈ preserved)
    (hsaved : r ∉ saved encoding) {s : Slot} (hslot : Arch.slot .aarch64 r = some s) :
    new.content s = old.content s := by
  obtain ⟨-, hsp, s', hslot', hip⟩ := preserved_bounds r hr
  rw [hslot] at hslot'
  cases hslot'
  refine h.kept s hip (fun hother => ?_) fun r' hr' _ hother => ?_
  · exact hsp (Arch.slot_inj hslot hother)
  · exact hsaved (Arch.slot_inj hslot hother ▸ hr')

/-- The registers that the encoding says nothing of are those of the callee. -/
structure Keeps (encoding : CompactEncoding) (old new : RegisterFile .aarch64) : Prop where
  clear : ∀ pair ∈ flags, encoding.field pair.1 1 = 0 → ∀ r, r = pair.2.1 ∨ r = pair.2.2 →
    ∀ s, Arch.slot .aarch64 r = some s → new.content s = old.content s
  framePointer : encoding.mode = 2 → new.fp = old.fp

theorem Unwinds.keeps_clear (h : Unwinds encoding space old new) : Keeps encoding old new where
  clear pair hpair hclear r hr s hslot := by
    have hmem : r ∈ preserved := by
      refine List.mem_cons_of_mem _ (List.mem_cons_of_mem _
        (List.mem_flatMap.mpr ⟨pair, hpair, ?_⟩))
      simpa using hr
    exact h.keeps hmem (not_mem_saved hpair hclear hr) hslot
  framePointer hmode := by
    have hsaved : 29 ∉ saved encoding := by
      unfold saved
      rw [hmode]
      exact not_mem_flagged (by decide)
    have hkept := h.keeps (r := 29) (by decide) hsaved rfl
    rw [RegisterFile.content_getD new (r := 29) rfl rfl,
      RegisterFile.content_getD old (r := 29) rfl rfl] at hkept
    exact RegisterValue.word.inj hkept

end Apply

/-! ## The program -/

theorem exists_spelling (dialect : Dialect) (opcode : UInt8)
    (meaning : Register → Word → Instruction)
    (hform : dialect.form opcode = some ⟨[.column, .unsigned], fun (r, n, _) => meaning r n⟩)
    {r : Register} (hr : r < UInt16.size) (n : Word) : ∃ bytes : List UInt8,
      bytes.length ≤ r + n.toNat + 3 ∧ ∀ space address,
        Instruction.spells .accepted dialect space address (meaning r n) bytes := by
  have hcolumn : (UInt64.ofNat r).toNat = r :=
    UInt64.toNat_ofNat_of_lt' (Nat.lt_trans hr (by decide))
  refine ⟨opcode :: (Reading.encodeUnsigned r ++ (Reading.encodeUnsigned n.toNat ++ [])), ?_,
    fun space address => Instruction.spells_mono LebForms.canonical_within
      (Instruction.spells_of_form hform (r, n, ()) rfl ⟨r, _, _, rfl, ⟨hr, ?_⟩, (n, ()),
        ⟨n, _, _, rfl, rfl, (), ⟨rfl, rfl⟩, rfl⟩, rfl⟩)⟩
  · have hfirst := Reading.length_encodeUnsigned_le r
    have hsecond := Reading.length_encodeUnsigned_le n.toNat
    simp only [List.length_cons, List.length_append, List.length_nil]
    omega
  · exact congrArg Reading.encodeUnsigned hcolumn.symm

theorem size_le (encoding : CompactEncoding) : (size encoding).toUInt64.toNat ≤ 65520 := by
  unfold size
  split
  · decide
  · have hfield : encoding.field 12 12 < 4096 := Nat.mod_lt _ (by decide)
    have hcast : (16 * encoding.field 12 12 : Int) = (16 * encoding.field 12 12 : Nat) := rfl
    rw [hcast, toUInt64_ofInt_natCast, UInt64.toNat_ofNat_of_lt']
    · omega
    · exact Nat.lt_of_lt_of_le (Nat.mul_lt_mul_of_pos_left hfield (by decide)) (by decide)

theorem factored_below (i : Nat) : (UInt64.ofNat (i + 1)).toInt64 * -8 = below i := by
  have hcount : (UInt64.ofNat (i + 1)).toInt64 = Int64.ofInt (i + 1 : Nat) := by
    rw [← toUInt64_ofInt_natCast, Int64.toInt64_toUInt64]
  rw [hcount]
  change Int64.ofInt _ * Int64.ofInt (-8) = _
  rw [← Int64.ofInt_mul]
  exact congrArg Int64.ofInt (by omega)

/-- Functions whose return address is in its register when they are called, and whose
saves are counted in words. -/
def pairsCommon : CommonEntry :=
  { Row.pushCommon with returnAddress := 30, instructions := ⟨0, 0⟩ }

/-- Whatever the encoding, the instructions of its program have spellings, and none
of them is long. -/
theorem spelled_saving (encoding : CompactEncoding) :
    ∀ instruction ∈ saving (base encoding) (size encoding) (slots encoding),
      ∃ bytes : List UInt8, bytes.length ≤ 65620 ∧ ∀ space address,
        Instruction.spells .accepted (pairsCommon.dialect .unknown .aarch64) space address
          instruction bytes := by
  intro instruction hmem
  rcases List.mem_cons.mp hmem with rfl | hmem
  · have hbase := base_le encoding
    have hsize := size_le encoding
    obtain ⟨bytes, hbytes, hspells⟩ := exists_spelling
      (pairsCommon.dialect .unknown .aarch64) 0x0c (fun r n => .defCfa r n.toInt64) rfl
      (Nat.lt_of_le_of_lt hbase (by decide)) (size encoding).toUInt64
    have hroom := Nat.le_trans hbytes (Nat.add_le_add_right (Nat.add_le_add hbase hsize) 3)
    exact ⟨bytes, Nat.le_trans hroom (by decide), hspells⟩
  · obtain ⟨⟨r, offset⟩, hslot, rfl⟩ := List.mem_map.mp hmem
    obtain ⟨i, hi, hslot⟩ := List.mem_mapIdx.mp hslot
    cases hslot
    have hr := (saved_bounds (List.getElem_mem hi)).1
    have hlast := length_saved_le encoding
    have hcount : (UInt64.ofNat (i + 1)).toNat ≤ 20 := by
      rw [UInt64.toNat_ofNat_of_lt' (by rw [show UInt64.size = 2 ^ 64 from rfl]; omega)]
      omega
    obtain ⟨bytes, hbytes, hspells⟩ := exists_spelling
      (pairsCommon.dialect .unknown .aarch64) 0x05 (fun r n => .offset r (n.toInt64 * -8)) rfl
      (Nat.lt_of_le_of_lt hr (by decide)) (UInt64.ofNat (i + 1))
    rw [factored_below] at hspells
    have hroom := Nat.le_trans hbytes (Nat.add_le_add_right (Nat.add_le_add hr hcount) 3)
    exact ⟨bytes, Nat.le_trans hroom (by decide), hspells⟩

theorem exists_describes (encoding : CompactEncoding) :
    ∃ (memory : Snapshot) (entry : FrameEntry),
      Describes encoding memory.space .unknown pairsCommon entry := by
  let program := saving (base encoding) (size encoding) (slots encoding)
  have hlength : program.length = (saved encoding).length + 1 := by
    simp [program, saving, slots]
  have hfits : 65620 * program.length < UInt64.size := by
    have hsaved := length_saved_le encoding
    rw [show UInt64.size = 2 ^ 64 from rfl]
    omega
  obtain ⟨memory, span, hitems⟩ := Instruction.exists_items (spelled_saving encoding) hfits
  refine ⟨memory, { Row.pushEntry with instructions := span }, rfl, rfl, [], program,
    slots encoding, rfl, hitems, ?_, .refl _⟩
  refine List.filter_eq_self.mpr fun instruction hmem => decide_eq_true ?_
  rcases List.mem_cons.mp hmem with rfl | hmem
  · exact nofun
  · obtain ⟨_, -, rfl⟩ := List.mem_map.mp hmem
    exact nofun

/-- An encoding gives the row of the programs that say the same, if it gives one.
Applying that row loads the saved registers from words of their own, one below the
other from the frame address on, and leaves the others alone. -/
theorem decode_pairs_inForce (encoding : CompactEncoding) (space : AddressSpace) (start : Word) :
    ((∃ row, encoding.decode .aarch64 space start = .ok (.row row)) ↔
      encoding.mode = 2 ∨ encoding.mode = 4) ∧
    (∃ (memory : Snapshot) (common : CommonEntry) (entry : FrameEntry),
      Describes encoding memory.space .unknown common entry) ∧
    ∀ row, encoding.decode .aarch64 space start = .ok (.row row) →
      (∀ memory bases common entry, Describes encoding memory bases common entry →
        ∀ pc, Row.inForce .aarch64 memory bases common entry pc = .ok row) ∧
      ∀ (memory : AddressSpace) (old new : RegisterFile .aarch64),
        (row.apply memory old = .ok new ↔ Unwinds encoding memory old new) ∧
        (row.apply memory old = .ok new → Separate encoding new.sp ∧ Keeps encoding old new) := by
  refine ⟨⟨fun ⟨row, hrow⟩ => (decode_eq_row.mp hrow).1, exists_row⟩, ?_, fun row hrow => ?_⟩
  · obtain ⟨memory, entry, hdescribes⟩ := exists_describes encoding
    exact ⟨memory, pairsCommon, entry, hdescribes⟩
  · have hset := (decode_eq_row.mp hrow).2
    have hlisted := pairsRow_of_setRules hset
    refine ⟨fun memory bases common entry h pc => inForce_of_describes hset h pc,
      fun memory old new => ⟨apply_eq_ok hlisted, fun happly => ?_⟩⟩
    exact ⟨separate encoding new.sp, ((apply_eq_ok hlisted).mp happly).keeps_clear⟩

/-- A frame record, and below it a pair of each class; the same as a program in two
parts, which names the record's words in the order of their addresses; and the frame of
a call from 0x402040. -/
def twoMemory : Snapshot where
  endian := .little
  regions := [⟨0x402000, [0x0c, 29, 16, 0x9d, 2, 0x9e, 1]⟩,
    ⟨0x402010, [0x93, 3, 0x94, 4, 0x05, 72, 5, 0x05, 73, 6, 0, 0]⟩,
    ⟨0x8000, [9, 0, 0, 0, 0, 0, 0, 0, 8, 0, 0, 0, 0, 0, 0, 0, 20, 0, 0, 0, 0, 0, 0, 0,
      19, 0, 0, 0, 0, 0, 0, 0, 0x60, 0x80, 0, 0, 0, 0, 0, 0, 0x40, 0x20, 0x40, 0, 0, 0, 0, 0]⟩]

def twoCommon : CommonEntry := { pairsCommon with instructions := ⟨0x402000, 0x402007⟩ }

def twoEntry : FrameEntry := { Row.pushEntry with instructions := ⟨0x402010, 0x40201c⟩ }

def twoCallee : RegisterFile .aarch64 := RegisterFile.zero.update 29 0x8020

theorem decode_pairs_inForce_two :
    Describes ⟨0x04000101⟩ twoMemory.space .unknown twoCommon twoEntry ∧
      ∃ row, CompactEncoding.decode ⟨0x04000101⟩ .aarch64 twoMemory.space 0x401000 =
          .ok (.row row) ∧
        Row.inForce .aarch64 twoMemory.space .unknown twoCommon twoEntry 0x401020 = .ok row ∧
        ∃ new, row.apply twoMemory.space twoCallee = .ok new ∧
          (new.sp = 0x8030 ∧ new.ip = 0x402040 ∧ new.get 20 = .ok 20 ∧
            new.getFloat 72 = .ok 8) ∧
          Unwinds ⟨0x04000101⟩ twoMemory.space twoCallee new ∧
          Separate ⟨0x04000101⟩ new.sp ∧ Keeps ⟨0x04000101⟩ twoCallee new := by
  have hdescribes : Describes ⟨0x04000101⟩ twoMemory.space .unknown twoCommon twoEntry := by
    refine ⟨rfl, rfl, [.defCfa 29 16, .offset 29 (-16), .offset 30 (-8)],
      [.offset 19 (-24), .offset 20 (-32), .offset 72 (-40), .offset 73 (-48), .nop, .nop],
      [(29, -16), (30, -8), (19, -24), (20, -32), (72, -40), (73, -48)], ?_, ?_, ?_, ?_⟩
    all_goals decide +kernel
  refine ⟨hdescribes, _, rfl, ?_⟩
  obtain ⟨-, -, hrow⟩ := decode_pairs_inForce ⟨0x04000101⟩ twoMemory.space 0x401000
  obtain ⟨hprogram, happly⟩ := hrow _ rfl
  refine ⟨hprogram _ _ _ _ hdescribes _, _, rfl, by decide +kernel, ?_⟩
  obtain ⟨hunwinds, hkept⟩ := happly twoMemory.space twoCallee _
  exact ⟨hunwinds.mp rfl, hkept rfl⟩

end Compact.Arm64

end Unwinding
