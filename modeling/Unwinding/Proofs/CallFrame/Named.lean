import Mathlib.Logic.Relation
import Unwinding.Proofs.CallFrame.Catalogued
import Unwinding.Proofs.CallFrame.Rounds
import Unwinding.Proofs.CallFrame.Saved
import Unwinding.Proofs.Reading.Failure

/-!
# The registers that instructions name

Every rule that a run writes has passed the catalog, so that a row always has room for it.
A run is refused for the number of a register only where it comes to an instruction that
names a number beyond the catalog. Numbers that do not fit 16 bits are noticed when the
instruction is decoded, all others when it is executed.
-/

namespace Unwinding

variable {arch : Arch}

namespace Arch

theorem highest_lt_capacity (arch : Arch) : arch.highest < Row.capacity := by
  cases arch <;> decide

theorem window_le_highest (arch : Arch) : 31 ≤ arch.highest := by
  cases arch <;> decide

end Arch

theorem Row.exists_setRule (row : Row) {r : Register} (rule : Rule) (h : r ≤ arch.highest) :
    ∃ row', row.setRule r rule = .ok row' :=
  ⟨_, dif_pos (Nat.lt_of_le_of_lt h arch.highest_lt_capacity)⟩

/-- The registers that the instruction changes, restores, copies from or finds the frame
address with, in the order in which they are looked up. -/
def Instruction.names : Instruction → List Register
  | .defCfa r _ | .defCfaRegister r | .undefined r | .sameValue r | .offset r _ | .valOffset r _
  | .expression r _ | .valExpression r _ | .restore r => [r]
  | .register r source => [source, r]
  | _ => []

/-- The first of them that the architecture does not have. -/
def Instruction.stranger (arch : Arch) (instruction : Instruction) : Option Register :=
  instruction.names.find? (arch.highest < ·)

namespace RowMachine

section Execution

variable {initial : Option Row} {machine machine' : RowMachine} {r : Register} {rule : Rule}
  {error : CfiError} {n : Nat}

theorem catalogued_eq_error :
    catalogued arch r = .error error ↔ arch.highest < r ∧ .badRegister r = error := by
  unfold catalogued
  by_cases h : r ≤ arch.highest
  · simp [h, Nat.not_lt.mpr h]
  · simp [h, Nat.lt_of_not_le h]

theorem exists_assign (machine : RowMachine) (rule : Rule) (h : r ≤ arch.highest) :
    ∃ machine', machine.assign arch r rule = .ok machine' := by
  obtain ⟨row, hrow⟩ := machine.row.exists_setRule rule h
  refine ⟨{ machine with row }, ?_⟩
  simp [assign, h, hrow]

theorem assign_eq_error :
    machine.assign arch r rule = .error error ↔ arch.highest < r ∧ .badRegister r = error := by
  by_cases h : r ≤ arch.highest
  · obtain ⟨machine', hassign⟩ := exists_assign machine rule h
    simp [hassign, Nat.not_lt.mpr h]
  · simp [assign, catalogued_eq_error, Nat.lt_of_not_le h, h]

theorem exists_assignAll (machine : RowMachine) {rules : List (Register × Rule)}
    (h : ∀ r rule, (r, rule) ∈ rules → r ≤ arch.highest) :
    ∃ machine', machine.assignAll arch rules = .ok machine' := by
  induction rules generalizing machine with
  | nil => exact ⟨machine, rfl⟩
  | cons first rules ih =>
    obtain ⟨middle, hfirst⟩ :=
      exists_assign machine first.2 (h first.1 first.2 List.mem_cons_self)
    obtain ⟨machine', hrest⟩ :=
      ih middle fun r rule hmem => h r rule (List.mem_cons_of_mem first hmem)
    exact ⟨machine', Outcome.bind_eq_ok.mpr ⟨middle, hfirst, hrest⟩⟩

theorem windowRules_le {r : Register} {rule : Rule} (h : (r, rule) ∈ windowRules) : r ≤ 31 := by
  simp only [windowRules, List.mem_append, List.mem_map, List.mem_range, Prod.mk.injEq] at h
  rcases h with ⟨i, hi, rfl, -⟩ | ⟨i, hi, rfl, -⟩
  · exact Nat.le_trans (Nat.add_le_add_left (Nat.le_of_lt hi) 8) (by decide)
  · exact Nat.add_le_add_left (Nat.le_of_lt_succ hi) 16

theorem stranger_single :
    [r].find? (arch.highest < ·) = some n ↔ arch.highest < r ∧ r = n := by
  by_cases h : arch.highest < r <;> simp [h]

/-- An instruction is refused for a register just where it names one that the architecture
does not have. -/
theorem execute_badRegister_iff {instruction : Instruction} :
    machine.execute arch initial instruction = .error (.badRegister n) ↔
      instruction.stranger arch = some n := by
  cases instruction with
  | undefined | sameValue | offset | valOffset | expression | valExpression | restore =>
    rw [execute, assign_eq_error, CfiError.badRegister.injEq]
    exact stranger_single.symm
  | defCfa | defCfaRegister =>
    simp only [execute, Outcome.bind_eq_error, Outcome.pure_eq_error, catalogued_eq_error,
      CfiError.badRegister.injEq, and_false, exists_false, or_false]
    exact stranger_single.symm
  | register r source =>
    simp only [execute, Outcome.bind_eq_error, catalogued_eq_error, catalogued_eq_ok,
      assign_eq_error, CfiError.badRegister.injEq]
    unfold Instruction.stranger Instruction.names
    by_cases hsource : arch.highest < source
    · simp [hsource, Nat.not_le.mpr hsource]
    · simp [hsource, Nat.not_lt.mp hsource]
  | windowSave =>
    obtain ⟨machine', hwindow⟩ : ∃ machine', machine.assignAll arch windowRules = .ok machine' :=
      exists_assignAll machine fun r rule hmem =>
        Nat.le_trans (windowRules_le hmem) arch.window_le_highest
    simp [execute, hwindow, Instruction.stranger, Instruction.names]
  | defCfaOffset offset =>
    simp only [execute]
    cases machine.row.cfa <;> simp [Instruction.stranger, Instruction.names]
  | rememberState =>
    simp only [execute]
    split <;> simp [Instruction.stranger, Instruction.names]
  | restoreState =>
    simp only [execute]
    cases machine.saved <;> simp [Instruction.stranger, Instruction.names]
  | _ => simp [execute, Instruction.stranger, Instruction.names]

end Execution

end RowMachine

section Decoding

variable {dialect : Dialect} {space : AddressSpace} {span : Span} {n : Nat}

/-- Among operands of these kinds the first that cannot be read is the number of a register,
and does not fit 16 bits. -/
def Operands.NamesWide (dialect : Dialect) (space : AddressSpace) :
    List OperandKind → Span → Nat → Prop
  | [], _, _ => False
  | kind :: kinds, span, n =>
    (kind = .column ∧ ∃ number rest, Reading.uleb128 space span = .ok number rest ∧
      UInt16.size ≤ number.toNat ∧ number.toNat = n) ∨
    ∃ value rest, kind.read dialect space span = .ok value rest ∧
      NamesWide dialect space kinds rest n

/-- The instruction at the front of the span names such a number. -/
def Instruction.NamesWide (dialect : Dialect) (space : AddressSpace) (span : Span) (n : Nat) :
    Prop :=
  ∃ opcode rest form, Reading.u8 space span = .ok opcode rest ∧ dialect.form opcode = some form ∧
    Operands.NamesWide dialect space form.kinds rest n

theorem Operands.le_of_namesWide {kinds : List OperandKind}
    (h : Operands.NamesWide dialect space kinds span n) : UInt16.size ≤ n := by
  induction kinds generalizing span with
  | nil => exact h.elim
  | cons kind kinds ih =>
    rcases h with ⟨-, number, rest, -, hwide, rfl⟩ | ⟨value, rest, -, h⟩
    · exact hwide
    · exact ih h

theorem Register.ofWord_eq_error {number : Word} :
    Register.ofWord number = .error (.badRegister n) ↔
      UInt16.size ≤ number.toNat ∧ number.toNat = n := by
  unfold Register.ofWord
  by_cases h : number.toNat < UInt16.size
  · simp [h, Nat.not_le.mpr h]
  · simp [h, Nat.not_lt.mp h]

/-- Only numbers of registers can be wrong, all other operands can but be missing. -/
theorem OperandKind.read_badRegister_iff (kind : OperandKind) :
    (∃ rest, kind.read dialect space span = .error (.badRegister n) rest) ↔
      kind = .column ∧ ∃ number rest, Reading.uleb128 space span = .ok number rest ∧
        UInt16.size ≤ number.toNat ∧ number.toNat = n := by
  cases kind with
  | column =>
    simp only [read, Instruction.column, Reading.bind_eq_error, Reading.liftM_eq_error,
      Reading.liftM_eq_ok, Reading.fetch_eq_error, Register.ofWord_eq_error, reduceCtorEq,
      and_false, exists_false, false_or, true_and]
    constructor
    · rintro ⟨_, number, rest, hread, hnumber, -⟩
      exact ⟨number, rest, hread, hnumber⟩
    · rintro ⟨number, rest, hread, hnumber⟩
      exact ⟨rest, number, rest, hread, hnumber, rfl⟩
  | block => simp [read, Instruction.block]
  | _ => simp [read]

theorem Operands.read_badRegister_iff (kinds : List OperandKind) :
    (∃ rest, Operands.read dialect kinds space span = .error (.badRegister n) rest) ↔
      NamesWide dialect space kinds span n := by
  induction kinds generalizing span with
  | nil => simp [Operands.read, NamesWide]
  | cons kind kinds ih =>
    rw [NamesWide, ← OperandKind.read_badRegister_iff]
    constructor
    · rintro ⟨rest, h⟩
      rcases Reading.bind_eq_error.mp h with hfirst | ⟨value, middle, hvalue, h⟩
      · exact .inl ⟨rest, hfirst⟩
      · rw [bind_pure_comp, Reading.map_eq_error] at h
        exact .inr ⟨value, middle, hvalue, ih.mp ⟨rest, h⟩⟩
    · rintro (⟨rest, hfirst⟩ | ⟨value, middle, hvalue, h⟩)
      · exact ⟨rest, Reading.bind_eq_error.mpr (.inl hfirst)⟩
      · obtain ⟨rest, h⟩ := ih.mpr h
        refine ⟨rest, Reading.bind_eq_error.mpr (.inr ⟨value, middle, hvalue, ?_⟩)⟩
        rw [bind_pure_comp, Reading.map_eq_error]
        exact h

/-- Decoding is refused for a register just where the instruction names a number that does
not fit 16 bits. -/
theorem Instruction.decode_badRegister_iff :
    (∃ rest, decode dialect space span = .error (.badRegister n) rest) ↔
      NamesWide dialect space span n := by
  have hform (opcode : UInt8) (middle : Span) :
      (∃ rest, InstructionForm.read dialect opcode (dialect.form opcode) space middle =
        .error (.badRegister n) rest) ↔
      ∃ form, dialect.form opcode = some form ∧
        Operands.NamesWide dialect space form.kinds middle n := by
    cases dialect.form opcode with
    | none => simp [InstructionForm.read]
    | some form =>
      simp [InstructionForm.read, ← Operands.read_badRegister_iff]
  rw [decode_eq, NamesWide]
  simp only [Reading.bind_eq_error, Reading.liftM_eq_error, Reading.liftM_eq_ok, reduceCtorEq,
    and_false, exists_false, false_or]
  constructor
  · rintro ⟨rest, opcode, middle, hopcode, h⟩
    obtain ⟨form, hsome, hwide⟩ := (hform opcode middle).mp ⟨rest, h⟩
    exact ⟨opcode, middle, form, hopcode, hsome, hwide⟩
  · rintro ⟨opcode, middle, form, hopcode, hsome, hwide⟩
    obtain ⟨rest, h⟩ := (hform opcode middle).mpr ⟨form, hsome, hwide⟩
    exact ⟨rest, opcode, middle, hopcode, h⟩

theorem InstructionStream.exists_next_error_iff {stream : InstructionStream} {error : CfiError} :
    (∃ later, stream.next dialect space = some (.error error, later)) ↔
      0 < stream.left ∧
        ∃ rest, Instruction.decode dialect space stream.span = .error error rest := by
  constructor
  · rintro ⟨later, hnext⟩
    obtain ⟨hleft, hnexts⟩ := nexts_of_next hnext
    cases hnexts with
    | failed hdecode => exact ⟨hleft, _, hdecode⟩
  · rintro ⟨hleft, rest, hdecode⟩
    have hmore : ¬ (stream.failed || stream.span.isEmpty) = true := by
      rw [← left_eq_zero]
      omega
    rw [next, if_neg hmore, hdecode]
    exact ⟨_, rfl⟩

end Decoding

namespace RowMachine

/-- Where a run stands: the location, what is still to be decoded, and the rows. -/
structure Point where
  location : Word
  stream : InstructionStream
  machine : RowMachine

namespace Point

/-- One instruction of a run, which ends before the first move beyond `pc`. -/
inductive Moves (arch : Arch) (initial : Option Row) (pc : Word) (dialect : Dialect)
    (space : AddressSpace) : Point → Point → Prop
  | moved {location target : Word} {stream later : InstructionStream} {machine : RowMachine}
      {instruction : Instruction} :
      stream.next dialect space = some (.ok instruction, later) →
      instruction.target location = some target → ¬ pc < target →
      Moves arch initial pc dialect space ⟨location, stream, machine⟩ ⟨target, later, machine⟩
  | executed {location : Word} {stream later : InstructionStream} {machine machine' : RowMachine}
      {instruction : Instruction} :
      stream.next dialect space = some (.ok instruction, later) →
      instruction.target location = none →
      machine.execute arch initial instruction = .ok machine' →
      Moves arch initial pc dialect space ⟨location, stream, machine⟩ ⟨location, later, machine'⟩

/-- A run comes from one point to another. -/
abbrev Comes (arch : Arch) (initial : Option Row) (pc : Word) (dialect : Dialect)
    (space : AddressSpace) : Point → Point → Prop :=
  Relation.ReflTransGen (Moves arch initial pc dialect space)

/-- The instruction that comes next names a register that the architecture does not have. -/
def Misnames (arch : Arch) (dialect : Dialect) (space : AddressSpace) (point : Point) (n : Nat) :
    Prop :=
  (∃ instruction later, point.stream.next dialect space = some (.ok instruction, later) ∧
    instruction.stranger arch = some n) ∨
  0 < point.stream.left ∧ Instruction.NamesWide dialect space point.stream.span n

/-- All rows are in the catalog, and there are no more put aside than there is room for. -/
structure Sound (arch : Arch) (point : Point) : Prop where
  rows : point.machine.Catalogued arch
  room : point.machine.saved.length ≤ Row.savedLimit

/-- What is left of the run. -/
def run (arch : Arch) (initial : Option Row) (pc : Word) (dialect : Dialect)
    (space : AddressSpace) (point : Point) : Except CfiError RowMachine :=
  RowMachine.run arch initial pc point.location (point.stream.remainder dialect space)
    point.machine

variable {initial : Option Row} {pc : Word} {dialect : Dialect} {space : AddressSpace}
  {point point' : Point} {n : Nat}

theorem Sound.moves (h : point.Sound arch)
    (hinitial : ∀ row, initial = some row → row.Catalogued arch)
    (hmoves : Moves arch initial pc dialect space point point') : point'.Sound arch := by
  cases hmoves with
  | moved => exact ⟨h.rows, h.room⟩
  | executed _ _ hexecute =>
    exact ⟨h.rows.execute hinitial hexecute, (saves_of_execute hexecute).length_le h.room⟩

/-- What one instruction keeps, a run keeps. -/
theorem Sound.comes (h : point.Sound arch)
    (hinitial : ∀ row, initial = some row → row.Catalogued arch)
    (hcomes : Comes arch initial pc dialect space point point') : point'.Sound arch := by
  induction hcomes with
  | refl => exact h
  | tail _ hmoves ih => exact ih.moves hinitial hmoves

theorem Moves.run_eq (h : Moves arch initial pc dialect space point point') :
    point.run arch initial pc dialect space = point'.run arch initial pc dialect space := by
  cases h with
  | moved hnext htarget hpc =>
    rw [run, InstructionStream.remainder_of_next hnext, run_moved htarget hpc, run]
  | executed hnext htarget hexecute =>
    rw [run, InstructionStream.remainder_of_next hnext, run_executed htarget hexecute, run]

theorem Comes.run_eq (h : Comes arch initial pc dialect space point point') :
    point.run arch initial pc dialect space = point'.run arch initial pc dialect space := by
  induction h with
  | refl => rfl
  | tail _ hmoves ih => rw [ih, hmoves.run_eq]

theorem target_of_stranger {instruction : Instruction} {location : Word}
    (h : instruction.stranger arch = some n) : instruction.target location = none := by
  cases instruction with
  | setLocation | advance => cases h
  | _ => rfl

theorem Misnames.beyond (h : point.Misnames arch dialect space n) : arch.highest < n := by
  rcases h with ⟨instruction, later, -, hstranger⟩ | ⟨-, opcode, rest, form, -, -, hwide⟩
  · have hbeyond := List.find?_some (p := (arch.highest < ·)) hstranger
    exact of_decide_eq_true hbeyond
  · have hrow := arch.highest_lt_capacity
    exact Nat.lt_of_lt_of_le (Nat.lt_trans hrow (by decide)) (Operands.le_of_namesWide hwide)

theorem Misnames.run_eq (h : point.Misnames arch dialect space n) :
    point.run arch initial pc dialect space = .error (.badRegister n) := by
  rcases h with ⟨instruction, later, hnext, hstranger⟩ | ⟨hleft, hwide⟩
  · rw [run, InstructionStream.remainder_of_next hnext]
    exact run_refused (target_of_stranger hstranger) (execute_badRegister_iff.mpr hstranger)
  · obtain ⟨later, hnext⟩ := InstructionStream.exists_next_error_iff.mpr
      ⟨hleft, Instruction.decode_badRegister_iff.mpr hwide⟩
    rw [run, InstructionStream.remainder_of_next hnext, RowMachine.run]

theorem exists_misnames_of_loop {rounds : Nat} {location : Word} {stream : InstructionStream}
    {machine : RowMachine} {result : Except CfiError RowMachine}
    (h : Loop arch initial pc dialect space rounds location stream machine result)
    (hresult : result = .error (.badRegister n)) :
    ∃ point, Comes arch initial pc dialect space ⟨location, stream, machine⟩ point ∧
      point.Misnames arch dialect space n := by
  induction h with
  | ended | beyond => cases hresult
  | failed hnext =>
    cases hresult
    obtain ⟨hleft, hdecode⟩ := InstructionStream.exists_next_error_iff.mp ⟨_, hnext⟩
    exact ⟨_, .refl, .inr ⟨hleft, Instruction.decode_badRegister_iff.mp hdecode⟩⟩
  | moved hnext htarget hpc _ ih =>
    obtain ⟨point, hcomes, hmisnames⟩ := ih hresult
    exact ⟨point, .head (.moved hnext htarget hpc) hcomes, hmisnames⟩
  | refused hnext htarget hexecute =>
    cases hresult
    exact ⟨_, .refl, .inl ⟨_, _, hnext, execute_badRegister_iff.mp hexecute⟩⟩
  | executed hnext htarget hexecute _ ih =>
    obtain ⟨point, hcomes, hmisnames⟩ := ih hresult
    exact ⟨point, .head (.executed hnext htarget hexecute) hcomes, hmisnames⟩

theorem run_badRegister_iff :
    point.run arch initial pc dialect space = .error (.badRegister n) ↔
      ∃ point', Comes arch initial pc dialect space point point' ∧
        point'.Misnames arch dialect space n := by
  constructor
  · intro h
    obtain ⟨rounds, result, -, hloop⟩ := exists_loop arch initial pc dialect space point.location
      point.stream point.machine
    exact exists_misnames_of_loop hloop (hloop.result_eq.trans h)
  · rintro ⟨point', hcomes, hmisnames⟩
    rw [hcomes.run_eq, hmisnames.run_eq]

end Point

end RowMachine

namespace Row

open RowMachine (Point)

variable {space : AddressSpace} {bases : Bases} {common : CommonEntry} {entry : FrameEntry}
  {pc : Word}

/-- Where the initial instructions begin. -/
def commonStart (common : CommonEntry) (entry : FrameEntry) : Point where
  location := entry.pcStart
  stream := .start common.instructions
  machine := ⟨{ empty common.returnAddress with signalFrame := common.isSignalFrame }, []⟩

/-- Where the instructions of the function begin. -/
def entryStart (entry : FrameEntry) (first : RowMachine) : Point where
  location := entry.pcStart
  stream := .start entry.instructions
  machine := ⟨first.row, []⟩

/-- The points that the search for a row comes to, in the one program and then in the
other. -/
inductive Visits (arch : Arch) (space : AddressSpace) (bases : Bases) (common : CommonEntry)
    (entry : FrameEntry) (pc : Word) : Point → Prop
  | common {point : Point} :
      Point.Comes arch none lastAddress (common.dialect bases arch) space
        (commonStart common entry) point →
      Visits arch space bases common entry pc point
  | entry {first : RowMachine} {point : Point} :
      initial arch space bases common = .ok first →
      Point.Comes arch (some first.row) pc (common.dialect bases arch) space
        (entryStart entry first) point →
      Visits arch space bases common entry pc point

theorem commonStart_sound (arch : Arch) (common : CommonEntry) (entry : FrameEntry) :
    (commonStart common entry).Sound arch where
  rows := ⟨(catalogued_empty arch common.returnAddress).congr rfl rfl,
    fun _ hsaved => absurd hsaved List.not_mem_nil⟩
  room := Nat.zero_le _

theorem catalogued_initial (entry : FrameEntry) {first : RowMachine}
    (h : initial arch space bases common = .ok first) : first.row.Catalogued arch := by
  rw [initial, ← RowMachine.run_lastAddress none entry.pcStart] at h
  refine ((commonStart_sound arch common entry).rows.run ?_ h).row
  rintro _ ⟨⟩

theorem Visits.sound {point : Point} (h : Visits arch space bases common entry pc point) :
    point.Sound arch := by
  cases h with
  | common hcomes =>
    refine (commonStart_sound arch common entry).comes ?_ hcomes
    rintro _ ⟨⟩
  | @entry first _ hfirst hcomes =>
    have hrow := catalogued_initial entry hfirst
    have hstart : (entryStart entry first).Sound arch :=
      ⟨⟨hrow, fun _ hsaved => absurd hsaved List.not_mem_nil⟩, Nat.zero_le _⟩
    refine hstart.comes ?_ hcomes
    rintro _ ⟨⟩
    exact hrow

theorem inForce_badRegister_iff {n : Nat} :
    inForce arch space bases common entry pc = .error (.badRegister n) ↔
      ∃ point, Visits arch space bases common entry pc point ∧
        point.Misnames arch (common.dialect bases arch) space n := by
  have hinitial : initial arch space bases common = .error (.badRegister n) ↔
      ∃ point, Point.Comes arch none lastAddress (common.dialect bases arch) space
        (commonStart common entry) point ∧
          point.Misnames arch (common.dialect bases arch) space n := by
    rw [← Point.run_badRegister_iff, initial, ← RowMachine.run_lastAddress none entry.pcStart]
    rfl
  have hentry (first : RowMachine) :
      (RowMachine.run arch (some first.row) pc entry.pcStart
        (Instruction.items (common.dialect bases arch) space entry.instructions)
        ⟨first.row, []⟩).map (·.row) = .error (.badRegister n) ↔
      ∃ point, Point.Comes arch (some first.row) pc (common.dialect bases arch) space
        (entryStart entry first) point ∧
          point.Misnames arch (common.dialect bases arch) space n := by
    rw [← Point.run_badRegister_iff, Outcome.map_eq_error]
    rfl
  rw [inForce_eq, Outcome.bind_eq_error, hinitial]
  simp only [hentry]
  constructor
  · rintro (⟨point, hcomes, hmisnames⟩ | ⟨first, hfirst, point, hcomes, hmisnames⟩)
    · exact ⟨point, .common hcomes, hmisnames⟩
    · exact ⟨point, .entry hfirst hcomes, hmisnames⟩
  · rintro ⟨point, hvisits, hmisnames⟩
    cases hvisits with
    | common hcomes => exact .inl ⟨point, hcomes, hmisnames⟩
    | entry hfirst hcomes => exact .inr ⟨_, hfirst, point, hcomes, hmisnames⟩

/-- How the search for a row treats the numbers of registers. -/
structure NamesCatalogued (arch : Arch) (space : AddressSpace) (bases : Bases)
    (common : CommonEntry) (entry : FrameEntry) (pc : Word) : Prop where
  rows : ∀ point, Visits arch space bases common entry pc point →
    point.machine.row.Catalogued arch ∧ (∀ row ∈ point.machine.saved, row.Catalogued arch) ∧
      point.machine.saved.length ≤ 16
  setRule : ∀ row r rule, r ≤ arch.highest → ∃ row', Row.setRule row r rule = .ok row'
  executed : ∀ initial machine instruction n,
    RowMachine.execute arch initial machine instruction = .error (.badRegister n) ↔
      instruction.stranger arch = some n
  decoded : ∀ dialect space span n,
    (∃ rest, Instruction.decode dialect space span = .error (.badRegister n) rest) ↔
      Instruction.NamesWide dialect space span n
  beyond : ∀ point n, Point.Misnames arch (common.dialect bases arch) space point n →
    arch.highest < n
  refused : ∀ n, inForce arch space bases common entry pc = .error (.badRegister n) ↔
    ∃ point, Visits arch space bases common entry pc point ∧
      point.Misnames arch (common.dialect bases arch) space n

/-- No row has a rule beyond the catalog, and a row is refused for a register just where
its programs come to an instruction that names one beyond the catalog. -/
theorem names_catalogued (arch : Arch) (space : AddressSpace) (bases : Bases)
    (common : CommonEntry) (entry : FrameEntry) (pc : Word) :
    NamesCatalogued arch space bases common entry pc where
  rows _ h := ⟨h.sound.rows.row, h.sound.rows.saved, h.sound.room⟩
  setRule row _ rule h := row.exists_setRule rule h
  executed _ _ _ _ := RowMachine.execute_badRegister_iff
  decoded _ _ _ _ := Instruction.decode_badRegister_iff
  beyond _ _ h := h.beyond
  refused _ := inForce_badRegister_iff

example : inForce .x86_64 (Snapshot.space ⟨.little, [⟨0x1000, [0x05, 0xc8, 0x01, 0x01]⟩]⟩) .unknown
    { pushCommon with instructions := ⟨0x1000, 0x1000⟩ }
    { pushEntry with instructions := ⟨0x1000, 0x1004⟩ } 0x4000 = .error (.badRegister 200) := by
  decide +kernel

end Row

end Unwinding
