import Unwinding.Proofs.CallFrame.Iteration
import Unwinding.Proofs.Outcome

/-!
# Running the instructions of an entry ends

A row is written by two loops, one over the initial instructions and one over those of
the function, each of which asks the iterator for one instruction after another. Here
the loops are given by what one round of them does, without a list of all instructions
and without a budget. Since no entry reaches beyond its own end, and no instruction is
without a byte, both loops end after at most as many rounds as the entries have bytes.
-/

namespace Unwinding

variable {arch : Arch}

namespace RowMachine

/-- The loop over the instructions of a stream, with the number of its whole rounds. -/
inductive Loop (arch : Arch) (initial : Option Row) (pc : Word) (dialect : Dialect)
    (space : AddressSpace) : Nat → Word → InstructionStream → RowMachine →
      Except CfiError RowMachine → Prop
  | ended {location : Word} {stream : InstructionStream} {machine : RowMachine} :
      stream.next dialect space = none →
      Loop arch initial pc dialect space 0 location stream machine (.ok machine)
  | failed {location : Word} {stream later : InstructionStream} {machine : RowMachine}
      {error : CfiError} :
      stream.next dialect space = some (.error error, later) →
      Loop arch initial pc dialect space 0 location stream machine (.error error)
  /-- The run ends before the first move beyond the address. -/
  | beyond {location target : Word} {stream later : InstructionStream} {machine : RowMachine}
      {instruction : Instruction} :
      stream.next dialect space = some (.ok instruction, later) →
      instruction.target location = some target → pc < target →
      Loop arch initial pc dialect space 0 location stream machine (.ok machine)
  | moved {rounds : Nat} {location target : Word} {stream later : InstructionStream}
      {machine : RowMachine} {instruction : Instruction} {result : Except CfiError RowMachine} :
      stream.next dialect space = some (.ok instruction, later) →
      instruction.target location = some target → ¬ pc < target →
      Loop arch initial pc dialect space rounds target later machine result →
      Loop arch initial pc dialect space (rounds + 1) location stream machine result
  | refused {location : Word} {stream later : InstructionStream} {machine : RowMachine}
      {instruction : Instruction} {error : CfiError} :
      stream.next dialect space = some (.ok instruction, later) →
      instruction.target location = none →
      machine.execute arch initial instruction = .error error →
      Loop arch initial pc dialect space 0 location stream machine (.error error)
  | executed {rounds : Nat} {location : Word} {stream later : InstructionStream}
      {machine machine' : RowMachine} {instruction : Instruction}
      {result : Except CfiError RowMachine} :
      stream.next dialect space = some (.ok instruction, later) →
      instruction.target location = none →
      machine.execute arch initial instruction = .ok machine' →
      Loop arch initial pc dialect space rounds location later machine' result →
      Loop arch initial pc dialect space (rounds + 1) location stream machine result

variable {initial : Option Row} {pc location target : Word} {dialect : Dialect}
  {space : AddressSpace} {stream : InstructionStream} {machine machine' : RowMachine}
  {instruction : Instruction} {rest : List (Except CfiError Instruction)} {error : CfiError}
  {result : Except CfiError RowMachine}

theorem run_beyond (h : instruction.target location = some target) (hpc : pc < target) :
    run arch initial pc location (.ok instruction :: rest) machine = .ok machine := by
  simp [run, h, hpc]

theorem run_moved (h : instruction.target location = some target) (hpc : ¬ pc < target) :
    run arch initial pc location (.ok instruction :: rest) machine =
      run arch initial pc target rest machine := by
  simp [run, h, hpc]

theorem run_refused (h : instruction.target location = none)
    (hexecute : machine.execute arch initial instruction = .error error) :
    run arch initial pc location (.ok instruction :: rest) machine = .error error := by
  simp only [run, h, hexecute]
  rfl

theorem run_executed (h : instruction.target location = none)
    (hexecute : machine.execute arch initial instruction = .ok machine') :
    run arch initial pc location (.ok instruction :: rest) machine =
      run arch initial pc location rest machine' := by
  simp only [run, h, hexecute]
  rfl

theorem Loop.result_eq {rounds : Nat}
    (h : Loop arch initial pc dialect space rounds location stream machine result) :
    result = run arch initial pc location (stream.remainder dialect space) machine := by
  induction h with
  | ended hnext => rw [InstructionStream.remainder_of_none hnext, run]
  | failed hnext => rw [InstructionStream.remainder_of_next hnext, run]
  | beyond hnext htarget hpc =>
    rw [InstructionStream.remainder_of_next hnext, run_beyond htarget hpc]
  | moved hnext htarget hpc _ ih =>
    rw [InstructionStream.remainder_of_next hnext, run_moved htarget hpc, ih]
  | refused hnext htarget hexecute =>
    rw [InstructionStream.remainder_of_next hnext, run_refused htarget hexecute]
  | executed hnext htarget hexecute _ ih =>
    rw [InstructionStream.remainder_of_next hnext, run_executed htarget hexecute, ih]

/-- A loop ends, since every round leaves fewer bytes for the next one. -/
theorem exists_loop (arch : Arch) (initial : Option Row) (pc : Word) (dialect : Dialect)
    (space : AddressSpace) (location : Word) (stream : InstructionStream) (machine : RowMachine) :
    ∃ rounds result, rounds ≤ stream.left ∧
      Loop arch initial pc dialect space rounds location stream machine result := by
  induction hleft : stream.left using Nat.strongRecOn generalizing stream location machine with
  | ind bytes ih =>
    cases hnext : stream.next dialect space with
    | none => exact ⟨0, _, Nat.zero_le _, .ended hnext⟩
    | some item =>
      obtain ⟨item, later⟩ := item
      have hless := InstructionStream.left_of_next hnext
      rw [hleft] at hless
      cases item with
      | error error => exact ⟨0, _, Nat.zero_le _, .failed hnext⟩
      | ok instruction =>
        cases htarget : instruction.target location with
        | some target =>
          by_cases hpc : pc < target
          · exact ⟨0, _, Nat.zero_le _, .beyond hnext htarget hpc⟩
          · obtain ⟨rounds, result, hrounds, hloop⟩ := ih later.left hless target later machine rfl
            exact ⟨rounds + 1, result, by omega, .moved hnext htarget hpc hloop⟩
        | none =>
          cases hexecute : machine.execute arch initial instruction with
          | error error => exact ⟨0, _, Nat.zero_le _, .refused hnext htarget hexecute⟩
          | ok machine' =>
            obtain ⟨rounds, result, hrounds, hloop⟩ :=
              ih later.left hless location later machine' rfl
            exact ⟨rounds + 1, result, by omega, .executed hnext htarget hexecute hloop⟩

theorem loop_items (arch : Arch) (initial : Option Row) (pc : Word) (dialect : Dialect)
    (space : AddressSpace) (location : Word) (span : Span) (machine : RowMachine) :
    ∃ rounds ≤ span.remaining, Loop arch initial pc dialect space rounds location (.start span)
      machine (run arch initial pc location (Instruction.items dialect space span) machine) := by
  obtain ⟨rounds, result, hrounds, hloop⟩ :=
    exists_loop arch initial pc dialect space location (.start span) machine
  have hresult : result =
      run arch initial pc location (Instruction.items dialect space span) machine :=
    hloop.result_eq
  exact ⟨rounds, hrounds, hresult ▸ hloop⟩

end RowMachine

namespace Row

/-- The two loops that find a row, with the number of their rounds. -/
inductive Loops (arch : Arch) (space : AddressSpace) (bases : Bases) (common : CommonEntry)
    (entry : FrameEntry) (pc : Word) : Nat → Except CfiError Row → Prop
  | failed {rounds : Nat} {error : CfiError} :
      RowMachine.Loop arch none lastAddress (common.dialect bases arch) space rounds entry.pcStart
        (.start common.instructions)
        ⟨{ empty common.returnAddress with signalFrame := common.isSignalFrame }, []⟩
        (.error error) →
      Loops arch space bases common entry pc rounds (.error error)
  | run {rounds rounds' : Nat} {first : RowMachine} {result : Except CfiError RowMachine} :
      RowMachine.Loop arch none lastAddress (common.dialect bases arch) space rounds entry.pcStart
        (.start common.instructions)
        ⟨{ empty common.returnAddress with signalFrame := common.isSignalFrame }, []⟩
        (.ok first) →
      RowMachine.Loop arch (some first.row) pc (common.dialect bases arch) space rounds'
        entry.pcStart (.start entry.instructions) ⟨first.row, []⟩ result →
      Loops arch space bases common entry pc (rounds + rounds') (result.map (·.row))

theorem loops_inForce (arch : Arch) (space : AddressSpace) (bases : Bases) (common : CommonEntry)
    (entry : FrameEntry) (pc : Word) :
    ∃ rounds ≤ common.instructions.remaining + entry.instructions.remaining,
      Loops arch space bases common entry pc rounds
        (inForce arch space bases common entry pc) := by
  let start : RowMachine :=
    ⟨{ empty common.returnAddress with signalFrame := common.isSignalFrame }, []⟩
  let dialect := common.dialect bases arch
  obtain ⟨rounds, hrounds, hcommon⟩ := RowMachine.loop_items arch none lastAddress dialect space
    entry.pcStart common.instructions start
  have hrow : inForce arch space bases common entry pc =
      (RowMachine.run arch none lastAddress entry.pcStart
          (Instruction.items dialect space common.instructions) start >>= fun first =>
        (RowMachine.run arch (some first.row) pc entry.pcStart
          (Instruction.items dialect space entry.instructions) ⟨first.row, []⟩).map (·.row)) := by
    simp only [inForce, Outcome.bind_pure_eq_map]
    rfl
  rw [hrow]
  cases hfirst : RowMachine.run arch none lastAddress entry.pcStart
      (Instruction.items dialect space common.instructions) start with
  | error error =>
    rw [hfirst] at hcommon
    exact ⟨rounds, by omega, .failed hcommon⟩
  | ok first =>
    rw [hfirst] at hcommon
    obtain ⟨rounds', hrounds', hentry⟩ := RowMachine.loop_items arch (some first.row) pc dialect
      space entry.pcStart entry.instructions ⟨first.row, []⟩
    exact ⟨rounds + rounds', by omega, .run hcommon hentry⟩

end Row

/-- The instructions of an entry that decodes are behind its head and end where it ends.
To iterate over them takes no more items than they have bytes and reads nothing but
these, apart from what indirect locations are loaded from. So the rows of an entry are
found by loops that end, whatever the bytes are. -/
theorem decoded_exhausts (space : AddressSpace) (bases : Bases) (address : Word) :
    (∀ common, CommonEntry.decode space bases address = .ok common →
      common.address = address ∧
      FillsEntry space common.address common.length common.instructions ∧
      ∀ dialect, Exhausts dialect space common.instructions) ∧
    ∀ entry common, FrameEntry.decode space bases address = .ok (entry, common) →
      entry.address = address ∧
      FillsEntry space entry.address entry.length entry.instructions ∧
      FillsEntry space common.address common.length common.instructions ∧
      (∀ dialect, Exhausts dialect space entry.instructions) ∧
      ∀ arch bases' pc, ∃ rounds ≤ common.instructions.remaining + entry.instructions.remaining,
        Row.Loops arch space bases' common entry pc rounds
          (Row.inForce arch space bases' common entry pc) := by
  refine ⟨fun common hdecode => ?_, fun entry common hdecode => ?_⟩
  · obtain ⟨haddress, hfills⟩ := CommonEntry.fills_of_decode hdecode
    exact ⟨haddress, hfills, fun dialect => exhausts dialect space common.instructions⟩
  · obtain ⟨haddress, hfills⟩ := FrameEntry.fills_of_decode hdecode
    obtain ⟨head, -, -, hcommon, -⟩ := FrameEntry.decode_eq_ok.mp hdecode
    exact ⟨haddress, hfills, (CommonEntry.fills_of_decode hcommon).2,
      fun dialect => exhausts dialect space entry.instructions,
      fun arch bases' pc => Row.loops_inForce arch space bases' common entry pc⟩

/-- A common entry with a length of 64 bits, and a function whose locations are stored
indirectly. Its instructions move to one of them, and end with an unknown opcode. -/
def indirectMemory : Snapshot where
  endian := .little
  regions := [⟨0x1000, [0xff, 0xff, 0xff, 0xff, 0x13, 0, 0, 0, 0, 0, 0, 0, 0, 0, 0, 0, 1, 0x7a, 0x52,
      0, 1, 0x78, 0x10, 1, 0x83, 0x0c, 7, 8, 0x90, 1, 0]⟩,
    ⟨0x101f, [0x15, 0, 0, 0, 0x23, 0, 0, 0, 0, 0x20, 0, 0, 0, 1, 0, 0, 0, 1, 8, 0x20, 0, 0, 0x0e,
      0x10, 0x3f]⟩,
    ⟨0x2000, [0, 0x40, 0, 0, 0, 0, 0, 0, 0x10, 0x40, 0, 0, 0, 0, 0, 0]⟩]

def indirectCommon : CommonEntry where
  address := 0x1000
  length := 31
  version := 1
  codeFactor := 1
  dataFactor := -8
  returnAddress := 16
  instructions := ⟨0x1019, 0x101f⟩
  pointerEncoding := ⟨0x83⟩
  lsdaEncoding := .absent
  personality := none
  hasAugmentation := true
  isSignalFrame := false
  signedWithBKey := false
  taggedMemory := false

def indirectEntry : FrameEntry where
  address := 0x101f
  length := 25
  common := 0x1000
  pcStart := 0x4000
  pcEnd := 0x4100
  lsda := none
  instructions := ⟨0x1030, 0x1038⟩

theorem decoded_exhausts_indirect :
    let space := indirectMemory.space
    let dialect := indirectCommon.dialect .unknown .x86_64
    CommonEntry.decode space .unknown 0x1000 = .ok indirectCommon ∧
      FrameEntry.decode space .unknown 0x101f = .ok (indirectEntry, indirectCommon) ∧
      FillsEntry space 0x1000 31 ⟨0x1019, 0x101f⟩ ∧ FillsEntry space 0x101f 25 ⟨0x1030, 0x1038⟩ ∧
      Exhausts dialect space ⟨0x1019, 0x101f⟩ ∧ Exhausts dialect space ⟨0x1030, 0x1038⟩ ∧
      Instruction.items dialect space ⟨0x1030, 0x1038⟩ =
        [.ok (.setLocation 0x4010), .ok (.defCfaOffset 16), .error (.unknownOpcode 0x3f)] ∧
      InstructionStream.MayRead dialect space ⟨0x1030, 0x1038⟩ 0x2008 8 ∧
      ∃ rounds ≤ 14, Row.Loops .x86_64 space .unknown indirectCommon indirectEntry 0x4010 rounds
        (.error (.unknownOpcode 0x3f)) := by
  have hcommon : CommonEntry.decode indirectMemory.space .unknown 0x1000 = .ok indirectCommon := by
    decide +kernel
  have hentry : FrameEntry.decode indirectMemory.space .unknown 0x101f =
      .ok (indirectEntry, indirectCommon) := by decide +kernel
  have hrow : Row.inForce .x86_64 indirectMemory.space .unknown indirectCommon indirectEntry
      0x4010 = .error (.unknownOpcode 0x3f) := by decide +kernel
  obtain ⟨-, hcommonFills, hcommonExhausts⟩ := (decoded_exhausts _ _ _).1 _ hcommon
  obtain ⟨-, hentryFills, -, hentryExhausts, hloops⟩ := (decoded_exhausts _ _ _).2 _ _ hentry
  refine ⟨hcommon, hentry, hcommonFills, hentryFills, hcommonExhausts _, hentryExhausts _,
    by decide +kernel, ?_, ?_⟩
  · exact .loaded .nil (by decide) ⟨rfl, ⟨0x1031, 0x1038⟩, ⟨0x1035, 0x1038⟩, by rfl, by rfl⟩
  · have hloops := hloops .x86_64 .unknown 0x4010
    rw [hrow] at hloops
    exact hloops

end Unwinding
