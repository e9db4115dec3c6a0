import Unwinding.Proofs.CallFrame.Rules
import Unwinding.Proofs.CallFrame.Straight
import Unwinding.Proofs.CallFrame.Table
import Unwinding.Proofs.Compact.Permutation
import Unwinding.Proofs.Registers.Restored

/-!
# Functions without a frame pointer

A function that pushes some registers and then makes room below them can be
described in two ways: by a compact encoding, which has their order as one number,
or by a program that gives each of them its place. The two are decoded by parts
that have nothing in common, and yet to the same row. Applying that row pops what
the function pushed.
-/

namespace Unwinding

namespace Compact.X64

open Permutation RowMachine

/-- The registers that a function keeps for its caller: rbx, r12 to r15 and rbp. -/
def preserved : List Register := [3, 12, 13, 14, 15, 6]

theorem saved_eq : saved = preserved := rfl

/-- Where a function that pushed these registers, after its return address, has
saved each of them. -/
def slots (registers : List Register) : List (Register × Int64) :=
  (16, words (-1)) :: registers.mapIdx fun i r => (r, words (i - 1 - registers.length))

/-- The program for such a function, whose frame has `size` bytes. -/
def framelessProgram (registers : List Register) (size : Int64) : List Instruction :=
  .defCfa 7 size :: (slots registers).map fun (r, offset) => .offset r offset

/-- The encoding says that the function at `start` pushes these registers, and has
a frame of `size` bytes. A size that is too large is in the code of the function. -/
structure Frameless (space : AddressSpace) (encoding : CompactEncoding) (start : Word)
    (registers : List Register) (size : Int64) : Prop where
  chosen : Chooses preserved registers
  count : encoding.field 10 3 = registers.length
  order : encoding.field 0 10 = lehmer preserved registers
  size : encoding.mode = 2 ∧ size = words (encoding.field 16 8) ∨
    encoding.mode = 3 ∧ ∃ reserved : UInt32,
      space.get32 (start + UInt64.ofNat (encoding.field 16 8)) = .ok reserved ∧
        size = Int64.ofInt reserved.toNat + words (encoding.field 13 3)

/-- The row with nothing but the frame address. -/
def bareRow (size : Int64) : Row := { Row.empty 16 with cfa := .registerOffset 7 size }

def slotRules (registers : List Register) : List (Register × Rule) :=
  (slots registers).map fun (r, offset) => (r, .inCfa offset)

variable {space : AddressSpace} {encoding : CompactEncoding} {start : Word}
  {registers : List Register} {size : Int64}

theorem preserved_bounds : ∀ r ∈ preserved, r < 16 ∧ r ≠ 7 := by decide

theorem length_le_six (h : Chooses preserved registers) : registers.length ≤ 6 := h.length_le

theorem pushes_of_order (hcount : encoding.field 10 3 ≤ 6) (hmem : ∀ r ∈ registers, r ∈ preserved)
    (horder : (Permutation.decode (encoding.field 10 3) (encoding.field 0 10)).take
      (encoding.field 10 3) = registers.map preserved.idxOf) :
    pushes encoding = .ok (registers.mapIdx fun i r =>
      (r, .inCfa (words (i - 1 - encoding.field 10 3)))) := by
  unfold pushes
  dsimp only
  rw [if_neg (Nat.not_lt.mpr hcount), horder]
  refine congrArg Except.ok (List.ext_getElem? fun i => ?_)
  rw [List.getElem?_mapIdx, List.getElem?_mapIdx, List.getElem?_map]
  cases hr : registers[i]? with
  | none => rfl
  | some r =>
    have hsaved := hmem r (List.mem_of_getElem? hr)
    have hname : saved[preserved.idxOf r]? = some r := by
      rw [saved_eq, List.getElem?_eq_getElem (List.idxOf_lt_length_of_mem hsaved),
        List.getElem_idxOf]
    simp [hname]

theorem pushes_eq (h : Frameless space encoding start registers size) :
    pushes encoding = .ok (registers.mapIdx fun i r =>
      (r, .inCfa (words (i - 1 - registers.length)))) := by
  have hdecode := decode_lehmer h.chosen (by decide : preserved.map preserved.idxOf = List.range 6)
  rw [← h.count, ← h.order] at hdecode
  rw [← h.count]
  exact pushes_of_order (h.count ▸ length_le_six h.chosen) h.chosen.subset hdecode

theorem slotRules_eq : slotRules registers = (16, .inCfa (words (-1))) ::
    registers.mapIdx fun i r => (r, .inCfa (words (i - 1 - registers.length))) := by
  unfold slotRules slots
  rw [List.map_cons]
  refine congrArg _ (List.ext_getElem? fun i => ?_)
  rw [List.getElem?_map, List.getElem?_mapIdx, List.getElem?_mapIdx]
  cases registers[i]? <;> rfl

/-- The frame of the function at `start` has `size` bytes. -/
def Sized (space : AddressSpace) (encoding : CompactEncoding) (start : Word) (size : Int64) :
    Prop :=
  encoding.mode = 2 ∧ size = words (encoding.field 16 8) ∨
    encoding.mode = 3 ∧ ∃ reserved : UInt32,
      space.get32 (start + UInt64.ofNat (encoding.field 16 8)) = .ok reserved ∧
        size = Int64.ofInt reserved.toNat + words (encoding.field 13 3)

theorem reservedSize_eq_ok : reservedSize space encoding start = .ok size ↔
    ∃ reserved : UInt32, space.get32 (start + UInt64.ofNat (encoding.field 16 8)) = .ok reserved ∧
      size = Int64.ofInt reserved.toNat + words (encoding.field 13 3) := by
  unfold reservedSize
  rw [Outcome.bind_eq_ok]
  refine exists_congr fun reserved => and_congr Outcome.mapError_eq_ok ?_
  rw [Outcome.pure_eq_ok, eq_comm]

theorem constantSize_eq_ok {row : Row} : constantSize encoding size = .ok row ↔
    ∃ saves, pushes encoding = .ok saves ∧
      (bareRow size).setRules ((16, .inCfa (words (-1))) :: saves) = .ok row := by
  unfold constantSize
  rw [Outcome.bind_eq_ok]
  exact exists_congr fun saves => and_congr_right fun _ => Outcome.mapError_eq_ok

theorem decode_eq_ok (hmode : encoding.mode = 2 ∨ encoding.mode = 3) {rules : CompactRules} :
    decode space encoding start = .ok rules ↔ ∃ size row, Sized space encoding start size ∧
      constantSize encoding size = .ok row ∧ rules = .row row := by
  unfold decode
  rcases hmode with hmode | hmode <;> rw [hmode] <;>
    simp only [Outcome.bind_eq_ok, Outcome.pure_eq_ok]
  · constructor
    · rintro ⟨row, hrow, rfl⟩
      exact ⟨_, row, .inl ⟨hmode, rfl⟩, hrow, rfl⟩
    · rintro ⟨size, row, ⟨-, rfl⟩ | ⟨hother, -⟩, hrow, rfl⟩
      · exact ⟨row, hrow, rfl⟩
      · exact absurd (hmode.symm.trans hother) (by decide)
  · constructor
    · rintro ⟨size, hsize, row, hrow, rfl⟩
      exact ⟨size, row, .inr ⟨hmode, reservedSize_eq_ok.mp hsize⟩, hrow, rfl⟩
    · rintro ⟨size, row, ⟨hother, -⟩ | ⟨-, hsize⟩, hrow, rfl⟩
      · exact absurd (hmode.symm.trans hother) (by decide)
      · exact ⟨size, reservedSize_eq_ok.mpr hsize, row, hrow, rfl⟩

theorem decode_eq (h : Frameless space encoding start registers size) {row : Row}
    (hrow : (bareRow size).setRules (slotRules registers) = .ok row) :
    decode space encoding start = .ok (.row row) := by
  have hmode : encoding.mode = 2 ∨ encoding.mode = 3 := h.size.imp And.left And.left
  rw [slotRules_eq] at hrow
  exact (decode_eq_ok hmode).mpr
    ⟨size, row, h.size, constantSize_eq_ok.mpr ⟨_, pushes_eq h, hrow⟩, rfl⟩

theorem slots_bounds (h : Chooses preserved registers) :
    ∀ member ∈ slots registers, member.1 ≤ 16 ∧ member.1 ≠ 7 := by
  intro member hmember
  rcases List.mem_cons.mp hmember with rfl | hmember
  · decide
  · obtain ⟨i, hi, rfl⟩ := List.mem_mapIdx.mp hmember
    obtain ⟨hlt, hne⟩ := preserved_bounds _ (h.subset _ (List.getElem_mem hi))
    exact ⟨Nat.le_of_lt hlt, hne⟩

theorem keys_slots (registers : List Register) :
    (slots registers).map Prod.fst = 16 :: registers := by
  unfold slots
  rw [List.map_cons]
  refine congrArg _ (List.ext_getElem? fun i => ?_)
  rw [List.getElem?_map, List.getElem?_mapIdx]
  cases registers[i]? <;> rfl

theorem nodup_slots (h : Chooses preserved registers) : ((slots registers).map Prod.fst).Nodup := by
  rw [keys_slots, List.nodup_cons]
  refine ⟨fun hmem => ?_, h.nodup⟩
  exact Nat.lt_irrefl 16 (preserved_bounds 16 (h.subset 16 hmem)).1

/-- The row of the function, rule by rule. -/
structure FramelessRow (registers : List Register) (size : Int64) (row : Row) : Prop where
  cfa : row.cfa = .registerOffset 7 size
  returnAddress : row.returnAddress = 16
  raSigned : row.raSigned = false
  ruled : ∀ member ∈ slots registers, row.rule member.1 = .inCfa member.2
  unruled : ∀ r, r ∉ 16 :: registers → row.rule r = .unused

theorem exists_framelessRow (h : Chooses preserved registers) (size : Int64) :
    ∃ row, (bareRow size).setRules (slotRules registers) = .ok row ∧
      FramelessRow registers size row := by
  have hkeys : (slotRules registers).map Prod.fst = (slots registers).map Prod.fst := by
    unfold slotRules
    rw [List.map_map]
    rfl
  have hcapacity : ∀ member ∈ slotRules registers, member.1 < Row.capacity := by
    intro member hmember
    obtain ⟨slot, hslot, rfl⟩ := List.mem_map.mp hmember
    exact Nat.lt_of_le_of_lt (slots_bounds h slot hslot).1 (by decide)
  obtain ⟨row, hrow⟩ := Row.setRules_exists hcapacity (bareRow size)
  obtain ⟨values, hrest⟩ := Row.setRules_rest hrow
  have hnodup : ((slotRules registers).map Prod.fst).Nodup := hkeys ▸ nodup_slots h
  obtain ⟨hruled, hunruled⟩ := Row.rule_setRules hnodup hrow
  refine ⟨row, hrow, ?_, ?_, ?_, fun member hmember => ?_, fun r hr => ?_⟩
  · rw [hrest]
    rfl
  · rw [hrest]
    rfl
  · rw [hrest]
    rfl
  · exact hruled (member.1, .inCfa member.2) (List.mem_map.mpr ⟨member, hmember, rfl⟩)
  · rw [hunruled r (by rwa [hkeys, keys_slots])]
    exact Row.rule_empty 16 r

/-! ## The caller -/

/-- The caller's registers are those popped off the frame: each of the pushed ones
from its own place, and nothing else changes. -/
structure Pops (registers : List Register) (size : Int64) (space : AddressSpace)
    (old new : RegisterFile .x86_64) : Prop where
  sp : new.sp = old.sp + size.toUInt64
  ip : space.pointer (new.sp - 8) = .ok new.ip
  popped : ∀ i r, registers[i]? = some r → ∃ value,
    space.pointer (new.sp - 8 - 8 * UInt64.ofNat registers.length + 8 * UInt64.ofNat i) =
      .ok value ∧ new.get r = .ok value
  kept : ∀ s, s ≠ .ip → Arch.slot .x86_64 (Arch.sp .x86_64) ≠ some s →
    (∀ r ∈ registers, Arch.slot .x86_64 r ≠ some s) → new.content s = old.content s

/-- The places count up from the lowest one, which holds the last push. -/
theorem slot_address (cfa : Word) (count i : Nat) :
    cfa + (words (i - 1 - count)).toUInt64 =
      cfa - 8 - 8 * UInt64.ofNat count + 8 * UInt64.ofNat i := by
  have hsize : (Int64.ofInt 8).toUInt64 = 8 := rfl
  have hone : (Int64.ofInt 1).toUInt64 = 1 := rfl
  unfold words
  rw [Int64.ofInt_mul, Int64.ofInt_sub, Int64.ofInt_sub, Int64.toUInt64_mul, Int64.toUInt64_sub,
    Int64.toUInt64_sub, hsize, hone, toUInt64_ofInt_natCast, toUInt64_ofInt_natCast]
  grind

theorem return_address (cfa : Word) : cfa + (words (-1)).toUInt64 = cfa - 8 := by
  have hback : (words (-1)).toUInt64 = -8 := by decide
  rw [hback, ← UInt64.sub_eq_add_neg]

theorem slot_of_saved {r : Register} (h : r ∈ preserved) :
    ∃ i, Arch.slot .x86_64 r = some (.integer i) := by
  have hall : ∀ r ∈ preserved, ∃ i, Arch.slot .x86_64 r = some (.integer i) := by decide
  exact hall r h

section Apply

variable {row : Row} {old new new' : RegisterFile .x86_64}

theorem frameAddress_eq (h : FramelessRow registers size row) :
    row.frameAddress space old = .ok (old.sp + size.toUInt64) := by
  unfold Row.frameAddress
  rw [h.cfa]
  rfl

theorem governs_iff (hchosen : Chooses preserved registers) (h : FramelessRow registers size row)
    {r : Register} : row.Governs .x86_64 r ↔ r ∈ registers := by
  constructor
  · rintro ⟨-, hra, -, hrule⟩
    rw [h.returnAddress] at hra
    by_contra hr
    exact hrule (h.unruled r fun hmem => (List.mem_cons.mp hmem).elim hra hr)
  · intro hr
    have hmem := hchosen.subset r hr
    obtain ⟨i, hslot⟩ := slot_of_saved hmem
    have hbounds := preserved_bounds r hmem
    refine ⟨Nat.le_trans (Nat.le_of_lt hbounds.1) (by decide), ?_, ?_, ?_⟩
    · rw [h.returnAddress]
      exact Nat.ne_of_lt hbounds.1
    · rw [hslot]
      exact nofun
    · obtain ⟨j, hj, rfl⟩ := List.mem_iff_getElem.mp hr
      have hruled := h.ruled _ (List.mem_cons_of_mem _ (List.mem_mapIdx.mpr ⟨j, hj, rfl⟩))
      rw [hruled]
      exact nofun

theorem rule_pushed (h : FramelessRow registers size row) {i : Nat} {r : Register}
    (hr : registers[i]? = some r) :
    row.rule r = .inCfa (words (i - 1 - registers.length)) := by
  obtain ⟨hi, rfl⟩ := List.getElem?_eq_some_iff.mp hr
  exact h.ruled _ (List.mem_cons_of_mem _ (List.mem_mapIdx.mpr ⟨i, hi, rfl⟩))

theorem returnsTo_iff (h : FramelessRow registers size row) {cfa address : Word} :
    row.ReturnsTo (⟨space, old, cfa⟩ : Callee .x86_64) address ↔
      space.pointer (cfa - 8) = .ok address := by
  have hrule : row.rule row.returnAddress = .inCfa (words (-1)) := by
    rw [h.returnAddress]
    exact h.ruled (16, words (-1)) List.mem_cons_self
  unfold Row.ReturnsTo
  rw [hrule, if_neg nofun]
  change (space.pointer (cfa + (words (-1)).toUInt64)).map RegisterValue.word =
    .ok (.word address) ↔ _
  rw [return_address, Outcome.map_eq_ok]
  constructor
  · rintro ⟨_, hread, hword⟩
    cases hword
    exact hread
  · exact fun hread => ⟨address, hread, rfl⟩

theorem pops_of_apply (hchosen : Chooses preserved registers) (h : FramelessRow registers size row)
    (happly : row.apply space old = .ok new) : Pops registers size space old new := by
  obtain ⟨cfa, hcfa, hrestores⟩ := Row.restores_of_apply happly
  rw [frameAddress_eq h] at hcfa
  cases hcfa
  have hsp : new.sp = old.sp + size.toUInt64 := by
    refine hrestores.sp fun hgoverned => ?_
    exact (preserved_bounds _ (hchosen.subset _ ((governs_iff hchosen h).mp hgoverned))).2 rfl
  refine ⟨hsp, ?_, fun i r hr => ?_, fun s hs hnsp hfree => ?_⟩
  · obtain ⟨address, hreturns, hip⟩ := hrestores.ip
    rw [returnsTo_iff h] at hreturns
    rw [hsp, hip, hreturns]
    exact congrArg Except.ok (UInt64.add_zero address).symm
  · have hmem := List.mem_of_getElem? hr
    obtain ⟨s, hslot, hgives⟩ := hrestores.ruled r ((governs_iff hchosen h).mpr hmem)
    obtain ⟨j, hinteger⟩ := slot_of_saved (hchosen.subset r hmem)
    rw [hinteger] at hslot
    cases hslot
    have hloaded := hgives (new.not_reloaded (by decide) space _)
    rw [rule_pushed h hr] at hloaded
    obtain ⟨value, hread, hvalue⟩ := Outcome.map_eq_ok.mp hloaded
    refine ⟨value, ?_, RegisterFile.get_eq_ok.mpr ⟨_, hinteger, rfl, hvalue.symm⟩⟩
    rw [hsp, ← slot_address]
    exact hread
  · refine hrestores.kept s hs hnsp (fun r hr => ?_) (new.not_reloaded (by decide) space s)
    exact hfree r ((governs_iff hchosen h).mp hr)

theorem restores_of_pops (hchosen : Chooses preserved registers)
    (h : FramelessRow registers size row) (hpops : Pops registers size space old new) :
    row.Restores ⟨space, old, old.sp + size.toUInt64⟩ new where
  ruled r hgoverned := by
    have hmem := (governs_iff hchosen h).mp hgoverned
    obtain ⟨i, hi⟩ := List.getElem?_of_mem hmem
    obtain ⟨value, hread, hget⟩ := hpops.popped i r hi
    obtain ⟨s, hslot, hinteger, hcontent⟩ := RegisterFile.get_eq_ok.mp hget
    refine ⟨s, hslot, fun _ => ?_⟩
    rw [hpops.sp, ← slot_address] at hread
    rw [hinteger, hcontent, rule_pushed h hi]
    exact Outcome.map_eq_ok.mpr ⟨value, hread, rfl⟩
  sp _ := hpops.sp
  kept s hs hnsp hfree _ :=
    hpops.kept s hs hnsp fun r hr => hfree r ((governs_iff hchosen h).mpr hr)
  ip := by
    refine ⟨new.ip, (returnsTo_iff h).mpr ?_, (UInt64.add_zero new.ip).symm⟩
    rw [← hpops.sp]
    exact hpops.ip
  reloaded _ hreloads := nomatch hreloads.1

theorem apply_eq_ok (hchosen : Chooses preserved registers) (h : FramelessRow registers size row) :
    row.apply space old = .ok new ↔ Pops registers size space old new := by
  refine ⟨pops_of_apply hchosen h, fun hpops => ?_⟩
  refine Row.apply_of_restores nofun (frameAddress_eq h) (fun r hra hrule => ?_)
    (restores_of_pops hchosen h hpops)
  rw [h.returnAddress] at hra
  have hmem : r ∈ registers := by
    by_contra hr
    exact hrule (h.unruled r fun hmem => (List.mem_cons.mp hmem).elim hra hr)
  obtain ⟨i, hslot⟩ := slot_of_saved (hchosen.subset r hmem)
  rw [hslot]
  exact nofun

end Apply

/-- An encoding and a program that describe the same pushes give the same row, at
every address, and applying it pops what was pushed. -/
theorem decode_eq_inForce (h : Frameless space encoding start registers size) {bases : Bases}
    {common : CommonEntry} {entry : FrameEntry} {initial own : List Instruction}
    (hreturn : common.returnAddress = 16) (hsignal : common.isSignalFrame = false)
    (hinitial : Instruction.items (common.dialect bases .x86_64) space common.instructions =
      initial.map .ok)
    (hown : Instruction.items (common.dialect bases .x86_64) space entry.instructions =
      own.map .ok)
    (hprogram : (initial ++ own).filter (· ≠ .nop) = framelessProgram registers size) (pc : Word) :
    ∃ row, encoding.decode .x86_64 space start = .ok (.row row) ∧
      Row.inForce .x86_64 space bases common entry pc = .ok row ∧
      ∀ (memory : AddressSpace) (old new : RegisterFile .x86_64),
        row.apply memory old = .ok new ↔ Pops registers size memory old new := by
  obtain ⟨row, hrow, hdescribed⟩ := exists_framelessRow h.chosen size
  have hnumbered : ∀ member ∈ slots registers, member.1 ≤ Arch.x86_64.highest :=
    fun member hmember => Nat.le_trans (slots_bounds h.chosen member hmember).1 (by decide)
  have hinForce := Row.inForce_saving hinitial hown hprogram (by decide) hnumbered pc
  rw [hreturn, hsignal] at hinForce
  exact ⟨row, decode_eq h hrow, hinForce.trans hrow,
    fun memory old new => apply_eq_ok h.chosen hdescribed⟩

/-- A function that pushes three registers before it makes room with an instruction
whose operand is at 0x401007, and the same as a program in two parts, with padding. -/
def pushedMemory : Snapshot where
  endian := .little
  regions := [⟨0x401007, [0x28, 0, 0, 0]⟩, ⟨0x402000, [0x0c, 7, 0x40, 0x90, 1]⟩,
    ⟨0x402010, [0x83, 4, 0x86, 3, 0x8c, 2, 0, 0]⟩]

def pushedCommon : CommonEntry :=
  { Row.pushCommon with instructions := ⟨0x402000, 0x402005⟩ }

def pushedEntry : FrameEntry :=
  { Row.pushEntry with instructions := ⟨0x402010, 0x402018⟩ }

theorem decode_eq_inForce_pushed :
    Frameless pushedMemory.space ⟨0x03076c10⟩ 0x401000 [3, 6, 12] 64 ∧
      ∃ row, CompactEncoding.decode ⟨0x03076c10⟩ .x86_64 pushedMemory.space 0x401000 =
          .ok (.row row) ∧
        Row.inForce .x86_64 pushedMemory.space .unknown pushedCommon pushedEntry 0x401020 =
          .ok row ∧
        ∀ (memory : AddressSpace) (old new : RegisterFile .x86_64),
          row.apply memory old = .ok new ↔ Pops [3, 6, 12] 64 memory old new := by
  have hframeless : Frameless pushedMemory.space ⟨0x03076c10⟩ 0x401000 [3, 6, 12] 64 := by
    refine ⟨⟨by decide, by decide⟩, by decide, by decide, .inr ⟨by decide, 0x28, ?_, by decide⟩⟩
    decide +kernel
  refine ⟨hframeless, decode_eq_inForce hframeless rfl rfl
    (?_ : _ = [Instruction.defCfa 7 64, .offset 16 (-8)].map Except.ok)
    (?_ : _ = [Instruction.offset 3 (-32), .offset 6 (-24), .offset 12 (-16), .nop, .nop].map
      Except.ok) ?_ 0x401020⟩
  · decide +kernel
  · decide +kernel
  · decide +kernel

end Compact.X64

end Unwinding
