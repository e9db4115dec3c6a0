import Unwinding.Memory.Snapshot
import Unwinding.Proofs.Outcome

/-!
# The whole table of rules

The machine runs a program up to one address and never sees the rest of it.
Written out as a whole, the program is a table: one line for each location it
comes to, with the row that is complete when the program moves on. A program
that fails has a last line without a row. As long as the locations do not go
back, the run up to an address finds the last line that is not beyond it.
-/

namespace Unwinding

variable {arch : Arch}

/-- A location, and the row from there on. -/
structure TableLine where
  location : Word
  row : Except CfiError Row

namespace RowMachine

/-- The effect of all instructions of a stream; their moves have none. -/
def executeAll (arch : Arch) (initial : Option Row)
    (items : List (Except CfiError Instruction)) (machine : RowMachine) :
    Except CfiError RowMachine :=
  items.foldlM (fun machine item => do machine.execute arch initial (← item)) machine

def table (arch : Arch) (initial : Option Row) :
    (location : Word) → List (Except CfiError Instruction) → RowMachine → List TableLine
  | location, [], machine => [⟨location, .ok machine.row⟩]
  | location, .error error :: _, _ => [⟨location, .error error⟩]
  | location, .ok instruction :: rest, machine =>
    match instruction.target location with
    | some target => ⟨location, .ok machine.row⟩ :: table arch initial target rest machine
    | none =>
      match machine.execute arch initial instruction with
      | .ok machine => table arch initial location rest machine
      | .error error => [⟨location, .error error⟩]

theorem table_eq_cons (arch : Arch) (initial : Option Row) (location : Word)
    (items : List (Except CfiError Instruction)) (machine : RowMachine) :
    ∃ row rest, table arch initial location items machine = ⟨location, row⟩ :: rest := by
  induction items generalizing machine with
  | nil => exact ⟨_, _, rfl⟩
  | cons item items ih =>
    cases item with
    | error error => exact ⟨_, _, rfl⟩
    | ok instruction =>
      simp only [table]
      cases instruction.target location with
      | some target => exact ⟨_, _, rfl⟩
      | none =>
        cases machine.execute arch initial instruction with
        | error error => exact ⟨_, _, rfl⟩
        | ok machine => exact ih machine

theorem execute_of_target {machine : RowMachine} {initial : Option Row} {location target : Word}
    {instruction : Instruction} (h : instruction.target location = some target) :
    machine.execute arch initial instruction = .ok machine := by
  cases instruction <;> first | rfl | cases h

theorem not_lastAddress_lt (address : Word) : ¬ lastAddress < address := by
  have hlast : lastAddress.toNat = 2 ^ 64 - 1 := rfl
  have haddress := address.toNat_lt
  rw [UInt64.lt_iff_toNat_lt, hlast]
  omega

theorem run_lastAddress (initial : Option Row) (location : Word)
    (items : List (Except CfiError Instruction)) (machine : RowMachine) :
    run arch initial lastAddress location items machine =
      executeAll arch initial items machine := by
  induction items generalizing location machine with
  | nil => rfl
  | cons item items ih =>
    cases item with
    | error error => rfl
    | ok instruction =>
      have hstep : executeAll arch initial (.ok instruction :: items) machine =
          machine.execute arch initial instruction >>= executeAll arch initial items := rfl
      rw [hstep, run]
      cases ht : instruction.target location with
      | some target =>
        rw [execute_of_target ht]
        simp only [if_neg (not_lastAddress_lt target), ih]
        rfl
      | none => simp only [ih]

theorem takeWhile_cons {pc location : Word} (h : location ≤ pc) (row : Except CfiError Row)
    (rest : List TableLine) :
    (⟨location, row⟩ :: rest : List TableLine).takeWhile (·.location ≤ pc) =
      ⟨location, row⟩ :: rest.takeWhile (·.location ≤ pc) :=
  List.takeWhile_cons_of_pos (by simpa using h)

/-- The run up to `pc` ends on the last of the lines before the first one
beyond `pc`. -/
theorem run_eq_line (arch : Arch) (initial : Option Row) {pc location : Word}
    (items : List (Except CfiError Instruction)) (machine : RowMachine) (h : location ≤ pc) :
    ∃ line, ((table arch initial location items machine).takeWhile (·.location ≤ pc)).getLast? =
        some line ∧
      line.row = (run arch initial pc location items machine).map (·.row) := by
  induction items generalizing location machine with
  | nil => exact ⟨_, congrArg List.getLast? (takeWhile_cons h _ []), rfl⟩
  | cons item items ih =>
    cases item with
    | error error => exact ⟨_, congrArg List.getLast? (takeWhile_cons h _ []), rfl⟩
    | ok instruction =>
      simp only [table, run]
      cases instruction.target location with
      | some target =>
        simp only [takeWhile_cons h]
        by_cases ht : pc < target
        · -- the next line is beyond `pc`, and so ends the prefix
          obtain ⟨row, rest, hrest⟩ := table_eq_cons arch initial target items machine
          rw [hrest, List.takeWhile_cons_of_neg (by simpa using ht)]
          exact ⟨_, rfl, by rw [if_pos ht]; rfl⟩
        · obtain ⟨line, hlast, hrow⟩ := ih machine (UInt64.not_lt.mp ht)
          rw [List.getLast?_cons, hlast]
          exact ⟨line, rfl, by rw [if_neg ht, hrow]⟩
      | none =>
        cases machine.execute arch initial instruction with
        | error error => exact ⟨_, congrArg List.getLast? (takeWhile_cons h _ []), rfl⟩
        | ok machine => exact ih machine h

end RowMachine

theorem takeWhile_eq_filter {lines : List TableLine}
    (h : lines.Pairwise (·.location ≤ ·.location)) (pc : Word) :
    lines.takeWhile (·.location ≤ pc) = lines.filter (·.location ≤ pc) := by
  induction lines with
  | nil => rfl
  | cons line lines ih =>
    obtain ⟨hline, hlines⟩ := List.pairwise_cons.mp h
    by_cases hpc : line.location ≤ pc
    · simp only [List.takeWhile_cons, List.filter_cons, hpc, decide_true, if_true, ih hlines]
    · have hnone : lines.filter (·.location ≤ pc) = [] := by
        refine List.filter_eq_nil_iff.mpr fun later hlater => ?_
        simp only [decide_eq_true_eq]
        exact fun hle => hpc (UInt64.le_trans (hline later hlater) hle)
      simp only [List.takeWhile_cons, List.filter_cons, hpc, decide_false, Bool.false_eq_true,
        if_false, hnone]

theorem FrameEntry.rowAt_eq_ok {space : AddressSpace} {bases : Bases} {address pc : Word}
    {row : Row} {entry : FrameEntry} {common : CommonEntry} :
    rowAt arch space bases address pc = .ok (row, entry, common) ↔
      decode space { bases with function := none } address = .ok (entry, common) ∧
        Row.inForce arch space { bases with function := some entry.pcStart } common entry pc =
          .ok row := by
  unfold rowAt
  rw [Outcome.bind_eq_ok]
  constructor
  · rintro ⟨⟨entry', common'⟩, hdecode, h⟩
    obtain ⟨row', hrow, h⟩ := Outcome.bind_eq_ok.mp h
    cases h
    exact ⟨hdecode, hrow⟩
  · rintro ⟨hdecode, hrow⟩
    exact ⟨(entry, common), hdecode, Outcome.bind_eq_ok.mpr ⟨row, hrow, rfl⟩⟩

namespace Row

variable {space : AddressSpace} {bases : Bases} {common : CommonEntry} {entry : FrameEntry}

/-- The machine after all initial instructions of a common entry. -/
def initial (arch : Arch) (space : AddressSpace) (bases : Bases) (common : CommonEntry) :
    Except CfiError RowMachine :=
  RowMachine.executeAll arch none
    (Instruction.items (common.dialect bases arch) space common.instructions)
    ⟨{ empty common.returnAddress with signalFrame := common.isSignalFrame }, []⟩

/-- The lines of a function whose first row is given. -/
def lines (arch : Arch) (space : AddressSpace) (bases : Bases) (common : CommonEntry)
    (entry : FrameEntry) (first : Row) : List TableLine :=
  RowMachine.table arch (some first) entry.pcStart
    (Instruction.items (common.dialect bases arch) space entry.instructions) ⟨first, []⟩

theorem inForce_eq (arch : Arch) (space : AddressSpace) (bases : Bases) (common : CommonEntry)
    (entry : FrameEntry) (pc : Word) :
    inForce arch space bases common entry pc =
      (initial arch space bases common >>= fun first =>
        (RowMachine.run arch (some first.row) pc entry.pcStart
          (Instruction.items (common.dialect bases arch) space entry.instructions)
          ⟨first.row, []⟩).map (·.row)) := by
  simp only [inForce, initial, RowMachine.run_lastAddress, Outcome.bind_pure_eq_map]

theorem inForce_lines {first : RowMachine} (hfirst : initial arch space bases common = .ok first)
    (sorted : (lines arch space bases common entry first.row).Pairwise (·.location ≤ ·.location))
    {pc : Word} (hpc : entry.pcStart ≤ pc) :
    ∃ line, ((lines arch space bases common entry first.row).filter
        (·.location ≤ pc)).getLast? = some line ∧
      inForce arch space bases common entry pc = line.row := by
  obtain ⟨line, hlast, hrow⟩ := RowMachine.run_eq_line arch (some first.row)
    (Instruction.items (common.dialect bases arch) space entry.instructions) ⟨first.row, []⟩ hpc
  rw [← lines, takeWhile_eq_filter sorted] at hlast
  refine ⟨line, hlast, ?_⟩
  rw [inForce_eq, hfirst, hrow]
  rfl

theorem inForce_of_initial_error {error : CfiError}
    (h : initial arch space bases common = .error error) (pc : Word) :
    inForce arch space bases common entry pc = .error error := by
  rw [inForce_eq, h]
  rfl

theorem inForce_congr {first : RowMachine} (hfirst : initial arch space bases common = .ok first)
    (sorted : (lines arch space bases common entry first.row).Pairwise (·.location ≤ ·.location))
    {pc pc' : Word} (hpc : entry.pcStart ≤ pc)
    (h : ∀ line ∈ lines arch space bases common entry first.row,
      line.location ≤ pc' ↔ line.location ≤ pc) :
    inForce arch space bases common entry pc' = inForce arch space bases common entry pc := by
  obtain ⟨row, rest, hrest⟩ := RowMachine.table_eq_cons arch (some first.row) entry.pcStart
    (Instruction.items (common.dialect bases arch) space entry.instructions) ⟨first.row, []⟩
  have hpc' : entry.pcStart ≤ pc' := (h ⟨entry.pcStart, row⟩ (by simp [lines, hrest])).mpr hpc
  obtain ⟨line, hline, hrow⟩ := inForce_lines hfirst sorted hpc
  obtain ⟨line', hline', hrow'⟩ := inForce_lines hfirst sorted hpc'
  have hfilter : (lines arch space bases common entry first.row).filter (·.location ≤ pc') =
      (lines arch space bases common entry first.row).filter (·.location ≤ pc) :=
    List.filter_congr fun line hmem => by simpa using h line hmem
  rw [hfilter, hline] at hline'
  cases hline'
  rw [hrow, hrow']

/-- What a common entry remembers is lost on its functions: only the row that
it ends with matters. -/
theorem inForce_common {instructions : Span} {first first' : RowMachine}
    (hfirst : initial arch space bases common = .ok first)
    (hfirst' : initial arch space bases { common with instructions } = .ok first')
    (h : first'.row = first.row) (pc : Word) :
    inForce arch space bases { common with instructions } entry pc =
      inForce arch space bases common entry pc := by
  rw [inForce_eq, inForce_eq, hfirst, hfirst']
  change (RowMachine.run arch (some first'.row) _ _ _ ⟨first'.row, []⟩).map _ = _
  rw [h]
  rfl

/-- The row in force at an address is read off the whole table, for it is that
of the last line that is not beyond the address, whatever the lines behind it
are. Addresses between the same lines have the same row, and of the common
entry's machine nothing but the row has an influence. There is no table, and no
row, if the common entry fails. -/
theorem inForce_table {pc : Word} (hpc : entry.pcStart ≤ pc) :
    (∀ error, initial arch space bases common = .error error →
      inForce arch space bases common entry pc = .error error) ∧
    ∀ first, initial arch space bases common = .ok first →
      (lines arch space bases common entry first.row).Pairwise (·.location ≤ ·.location) →
      (∃ line, ((lines arch space bases common entry first.row).filter
          (·.location ≤ pc)).getLast? = some line ∧
        inForce arch space bases common entry pc = line.row) ∧
      (∀ pc', (∀ line ∈ lines arch space bases common entry first.row,
          line.location ≤ pc' ↔ line.location ≤ pc) →
        inForce arch space bases common entry pc' = inForce arch space bases common entry pc) ∧
      ∀ instructions first',
        initial arch space bases { common with instructions } = .ok first' →
        first'.row = first.row →
        inForce arch space bases { common with instructions } entry pc =
          inForce arch space bases common entry pc := by
  refine ⟨fun error herror => inForce_of_initial_error herror pc, fun first hfirst sorted => ?_⟩
  exact ⟨inForce_lines hfirst sorted hpc, fun pc' h => inForce_congr hfirst sorted hpc h,
    fun instructions first' hfirst' h => inForce_common hfirst hfirst' h pc⟩

/-- A common entry that remembers its row, and a function that pushes a
register before something unreadable. -/
def pushMemory : Snapshot where
  endian := .little
  regions := [⟨0x1000, [0x0c, 7, 8, 0x90, 1, 0x0a, 0x44, 0x0e, 16, 0x48, 0xff]⟩]

def pushCommon : CommonEntry where
  address := 0
  length := 0
  version := 1
  codeFactor := 1
  dataFactor := -8
  returnAddress := 16
  instructions := ⟨0x1000, 0x1006⟩
  pointerEncoding := .absolute
  lsdaEncoding := .absent
  personality := none
  hasAugmentation := false
  isSignalFrame := false
  signedWithBKey := false
  taggedMemory := false

def pushEntry : FrameEntry where
  address := 0
  length := 0
  common := 0
  pcStart := 0x4000
  pcEnd := 0x4100
  lsda := none
  instructions := ⟨0x1006, 0x100b⟩

theorem inForce_table_push :
    ∃ first, initial .x86_64 pushMemory.space .unknown pushCommon = .ok first ∧
      let table := lines .x86_64 pushMemory.space .unknown pushCommon pushEntry first.row
      first.saved.length = 1 ∧ table.map (·.location) = [0x4000, 0x4004, 0x400c] ∧
      (∃ line, (table.filter (·.location ≤ 0x4005)).getLast? = some line ∧
        inForce .x86_64 pushMemory.space .unknown pushCommon pushEntry 0x4005 = line.row) ∧
      (∀ pc', (∀ line ∈ table, line.location ≤ pc' ↔ line.location ≤ 0x4005) →
        inForce .x86_64 pushMemory.space .unknown pushCommon pushEntry pc' =
          inForce .x86_64 pushMemory.space .unknown pushCommon pushEntry 0x4005) ∧
      ∀ instructions first',
        initial .x86_64 pushMemory.space .unknown { pushCommon with instructions } = .ok first' →
        first'.row = first.row →
        inForce .x86_64 pushMemory.space .unknown { pushCommon with instructions } pushEntry 0x4005 =
          inForce .x86_64 pushMemory.space .unknown pushCommon pushEntry 0x4005 :=
  ⟨_, rfl, by decide, by decide,
    (inForce_table (show pushEntry.pcStart ≤ 0x4005 by decide)).2 _ rfl (by decide)⟩

end Row

end Unwinding
