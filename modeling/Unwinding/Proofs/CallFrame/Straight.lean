import Unwinding.CallFrame.Machine
import Unwinding.Proofs.Outcome

/-!
# Programs that do not move

A program that stays at one location writes a single row, which is in force at
every address. If it does not look at saved rows or at those to be restored
either, then it does the same as initial instructions and as the function's own,
and it does not matter where it is divided between the two.
-/

namespace Unwinding

variable {arch : Arch}

theorem toUInt64_ofInt_natCast (n : Nat) : (Int64.ofInt n).toUInt64 = UInt64.ofNat n := by
  rw [Int64.ofInt_eq_ofNat]
  rfl

namespace RowMachine

/-- What an instruction makes of a row when no other row is at hand. -/
def effect (arch : Arch) (row : Row) (instruction : Instruction) : Except CfiError Row :=
  (execute arch none ⟨row, []⟩ instruction).map (·.row)

/-- The instruction does not move, and looks at nothing but the row. -/
structure Plain (arch : Arch) (instruction : Instruction) : Prop where
  stays : ∀ location, instruction.target location = none
  alone : ∀ initial machine, execute arch initial machine instruction =
    (effect arch machine.row instruction).map fun row => { machine with row }

theorem plain_nop (arch : Arch) : Plain arch .nop where
  stays _ := rfl
  alone _ _ := rfl

theorem plain_defCfa (arch : Arch) (r : Register) (offset : Int64) :
    Plain arch (.defCfa r offset) where
  stays _ := rfl
  alone _ _ := by
    simp only [effect, execute]
    cases catalogued arch r <;> rfl

theorem plain_offset (arch : Arch) (r : Register) (offset : Int64) :
    Plain arch (.offset r offset) where
  stays _ := rfl
  alone _ machine := by
    simp only [effect, execute, assign]
    cases catalogued arch r with
    | error error => rfl
    | ok r =>
      change (machine.row.setRule r (.inCfa offset) >>= fun row => .ok { machine with row }) =
        (((machine.row.setRule r (.inCfa offset)) >>= fun row =>
          .ok (⟨row, []⟩ : RowMachine)).map (·.row)).map fun row => { machine with row }
      cases machine.row.setRule r (.inCfa offset) <;> rfl

variable {instructions : List Instruction}

theorem run_plain (h : ∀ instruction ∈ instructions, Plain arch instruction)
    (initial : Option Row) (pc location : Word) (machine : RowMachine) :
    run arch initial pc location (instructions.map .ok) machine =
      (instructions.foldlM (effect arch) machine.row).map fun row => { machine with row } := by
  induction instructions generalizing machine with
  | nil => rfl
  | cons instruction instructions ih =>
    have hfirst := h instruction List.mem_cons_self
    have hrest := fun later hlater => h later (List.mem_cons_of_mem _ hlater)
    rw [List.map_cons, run, hfirst.stays location, List.foldlM_cons]
    dsimp only
    rw [hfirst.alone]
    cases effect arch machine.row instruction with
    | error error => rfl
    | ok row => exact ih hrest { machine with row }

theorem foldlM_effect_padded (row : Row) :
    instructions.foldlM (effect arch) row =
      (instructions.filter (· ≠ .nop)).foldlM (effect arch) row := by
  induction instructions generalizing row with
  | nil => rfl
  | cons instruction instructions ih =>
    by_cases hnop : instruction = .nop
    · subst hnop
      rw [List.filter_cons_of_neg (by simp)]
      exact ih row
    · rw [List.filter_cons_of_pos (by simpa using hnop), List.foldlM_cons, List.foldlM_cons]
      exact congrArg _ (funext ih)

/-- A program that tells the frame address from a register, and says where from
there registers are saved. -/
def saving (base : Register) (size : Int64) (members : List (Register × Int64)) :
    List Instruction :=
  .defCfa base size :: members.map fun (r, offset) => .offset r offset

variable {members : List (Register × Int64)}

theorem plain_saving {base : Register} {size : Int64} {instruction : Instruction}
    (h : instruction ∈ saving base size members) : Plain arch instruction := by
  rcases List.mem_cons.mp h with rfl | h
  · exact plain_defCfa _ _ _
  · obtain ⟨⟨r, offset⟩, -, rfl⟩ := List.mem_map.mp h
    exact plain_offset _ _ _

theorem effect_offset {row : Row} {r : Register} (h : r ≤ arch.highest) (offset : Int64) :
    effect arch row (.offset r offset) = row.setRule r (.inCfa offset) := by
  have hcatalogued : catalogued arch r = .ok r := if_pos h
  simp only [effect, execute, assign]
  rw [hcatalogued]
  change ((row.setRule r (.inCfa offset)) >>= fun row => .ok (⟨row, []⟩ : RowMachine)).map
    (·.row) = _
  cases row.setRule r (.inCfa offset) <;> rfl

theorem foldlM_offsets (h : ∀ member ∈ members, member.1 ≤ arch.highest) (row : Row) :
    (members.map fun (r, offset) => Instruction.offset r offset).foldlM (effect arch) row =
      row.setRules (members.map fun (r, offset) => (r, .inCfa offset)) := by
  induction members generalizing row with
  | nil => rfl
  | cons member members ih =>
    have hrest := ih fun later hlater => h later (List.mem_cons_of_mem _ hlater)
    rw [List.map_cons, List.foldlM_cons, effect_offset (h member List.mem_cons_self)]
    exact congrArg _ (funext hrest)

theorem foldlM_saving {base : Register} (hbase : base ≤ arch.highest)
    (h : ∀ member ∈ members, member.1 ≤ arch.highest) (size : Int64) (row : Row) :
    (saving base size members).foldlM (effect arch) row =
      { row with cfa := .registerOffset base size }.setRules
        (members.map fun (r, offset) => (r, .inCfa offset)) := by
  have hcatalogued : catalogued arch base = .ok base := if_pos hbase
  have hfirst : effect arch row (.defCfa base size) =
      .ok { row with cfa := .registerOffset base size } := by
    simp only [effect, execute]
    rw [hcatalogued]
    rfl
  unfold saving
  rw [List.foldlM_cons, hfirst]
  exact foldlM_offsets h _

end RowMachine

open RowMachine

theorem Row.inForce_plain {space : AddressSpace} {bases : Bases} {common : CommonEntry}
    {entry : FrameEntry} {initial own : List Instruction}
    (hinitial : Instruction.items (common.dialect bases arch) space common.instructions =
      initial.map .ok)
    (hown : Instruction.items (common.dialect bases arch) space entry.instructions =
      own.map .ok)
    (hplain : ∀ instruction ∈ initial ++ own, Plain arch instruction) (pc : Word) :
    Row.inForce arch space bases common entry pc =
      ((initial ++ own).filter (· ≠ .nop)).foldlM (effect arch)
        { Row.empty common.returnAddress with signalFrame := common.isSignalFrame } := by
  have hfront := fun instruction h => hplain instruction (List.mem_append_left own h)
  have hback := fun instruction h => hplain instruction (List.mem_append_right initial h)
  unfold Row.inForce
  dsimp only
  rw [← foldlM_effect_padded, List.foldlM_append, hinitial, hown, run_plain hfront]
  cases initial.foldlM (effect arch)
      { Row.empty common.returnAddress with signalFrame := common.isSignalFrame } with
  | error error => rfl
  | ok first =>
    change (run arch (some first) pc entry.pcStart (own.map .ok) ⟨first, []⟩ >>= fun last =>
      .ok last.row) = own.foldlM (effect arch) first
    rw [run_plain hback]
    cases own.foldlM (effect arch) first <;> rfl

/-- Such a program writes the row that has the frame address and the saves, and it
does not matter which part of it is in the common entry, and where it is padded. -/
theorem Row.inForce_saving {space : AddressSpace} {bases : Bases} {common : CommonEntry}
    {entry : FrameEntry} {initial own : List Instruction} {base : Register} {size : Int64}
    {members : List (Register × Int64)}
    (hinitial : Instruction.items (common.dialect bases arch) space common.instructions =
      initial.map .ok)
    (hown : Instruction.items (common.dialect bases arch) space entry.instructions =
      own.map .ok)
    (hprogram : (initial ++ own).filter (· ≠ .nop) = saving base size members)
    (hbase : base ≤ arch.highest) (hmembers : ∀ member ∈ members, member.1 ≤ arch.highest)
    (pc : Word) :
    Row.inForce arch space bases common entry pc =
      { Row.empty common.returnAddress with
        cfa := .registerOffset base size
        signalFrame := common.isSignalFrame }.setRules
          (members.map fun (r, offset) => (r, .inCfa offset)) := by
  have hplain : ∀ instruction ∈ initial ++ own, Plain arch instruction := by
    intro instruction hmem
    by_cases hnop : instruction = .nop
    · rw [hnop]
      exact plain_nop _
    · have hprogrammed : instruction ∈ saving base size members := by
        rw [← hprogram]
        exact List.mem_filter.mpr ⟨hmem, by simpa using hnop⟩
      exact plain_saving hprogrammed
  rw [Row.inForce_plain hinitial hown hplain, hprogram, foldlM_saving hbase hmembers]

end Unwinding
