import Unwinding.Proofs.CallFrame.Table

/-!
# Rows put aside

A program puts its row aside with one instruction and takes it back with another, and
between the two it may do so again. If what lies between them is balanced, then it
never touches the rows below its own, so that the two together leave the machine as it
was, whatever the row has been through. Only the location is where it has come to.

How many rows are put aside is read off the program: as many as it has put aside and
not yet taken back. The rows that the common entry leaves behind are not among them.
-/

namespace Unwinding

variable {arch : Arch} {location pc : Word}

namespace Instruction

/-- Where the program moves to, one after the other. -/
def moves : (location : Word) → List Instruction → List Word
  | _, [] => []
  | location, instruction :: rest =>
    match instruction.target location with
    | some target => target :: moves target rest
    | none => moves location rest

/-- Where the program comes to. -/
def reached (location : Word) (program : List Instruction) : Word :=
  (moves location program).getLastD location

/-- How many rows the program puts aside. -/
def opens (program : List Instruction) : Nat := program.count .rememberState

/-- How many rows the program takes back. -/
def closes (program : List Instruction) : Nat := program.count .restoreState

/-- The program takes back all rows that it puts aside, and no others. -/
structure Balanced (program : List Instruction) : Prop where
  inside : ∀ done, done <+: program → closes done ≤ opens done
  closed : closes program = opens program

theorem balanced_iff {program : List Instruction} :
    Balanced program ↔
      (∀ n ≤ program.length, closes (program.take n) ≤ opens (program.take n)) ∧
        closes program = opens program := by
  constructor
  · intro h
    exact ⟨fun n _ => h.inside _ (List.take_prefix n program), h.closed⟩
  · intro h
    constructor
    · intro done hdone
      rw [List.prefix_iff_eq_take.mp hdone]
      exact h.1 done.length hdone.length_le
    · exact h.2

instance (program : List Instruction) : Decidable (Balanced program) :=
  decidable_of_iff _ balanced_iff.symm

/-- The row is put aside, and taken back in the end. -/
def bracket (mid : List Instruction) : List Instruction :=
  .rememberState :: (mid ++ [.restoreState])

variable {instruction : Instruction} {program front behind : List Instruction} {target : Word}

theorem moves_of_target (h : instruction.target location = some target) :
    moves location (instruction :: program) = target :: moves target program := by
  simp only [moves, h]

theorem moves_of_none (h : instruction.target location = none) :
    moves location (instruction :: program) = moves location program := by
  simp only [moves, h]

theorem reached_of_target (h : instruction.target location = some target) :
    reached location (instruction :: program) = reached target program := by
  rw [reached, moves_of_target h, List.getLastD_cons, reached]

theorem reached_of_none (h : instruction.target location = none) :
    reached location (instruction :: program) = reached location program := by
  rw [reached, moves_of_none h, reached]

theorem moves_append (front behind : List Instruction) :
    moves location (front ++ behind) =
      moves location front ++ moves (reached location front) behind := by
  induction front generalizing location with
  | nil => rfl
  | cons instruction front ih =>
    rw [List.cons_append]
    cases htarget : instruction.target location with
    | some target =>
      rw [moves_of_target htarget, moves_of_target htarget, reached_of_target htarget, ih,
        List.cons_append]
    | none => rw [moves_of_none htarget, moves_of_none htarget, reached_of_none htarget, ih]

theorem moves_bracket (front mid : List Instruction) :
    moves location (front ++ bracket mid) = moves location (front ++ mid) := by
  rw [moves_append, moves_append]
  apply congrArg
  have hmid : moves (reached location front) (bracket mid) =
      moves (reached location front) (mid ++ [.restoreState]) := rfl
  rw [hmid, moves_append]
  exact List.append_nil _

theorem reached_bracket (front mid : List Instruction) :
    reached location (front ++ bracket mid) = reached location (front ++ mid) := by
  rw [reached, moves_bracket, reached]

@[simp] theorem opens_append (front behind : List Instruction) :
    opens (front ++ behind) = opens front + opens behind := List.count_append

@[simp] theorem closes_append (front behind : List Instruction) :
    closes (front ++ behind) = closes front + closes behind := List.count_append

theorem opens_cons (instruction : Instruction) (program : List Instruction) :
    opens (instruction :: program) = opens [instruction] + opens program :=
  opens_append [instruction] program

theorem closes_cons (instruction : Instruction) (program : List Instruction) :
    closes (instruction :: program) = closes [instruction] + closes program :=
  closes_append [instruction] program

end Instruction

open Instruction RowMachine

namespace RowMachine

variable {initial : Option Row} {machine machine' : RowMachine} {program : List Instruction}
  {items : List (Except CfiError Instruction)}

theorem executeAll_cons (instruction : Instruction) (machine : RowMachine) :
    executeAll arch initial (.ok instruction :: items) machine =
      machine.execute arch initial instruction >>= executeAll arch initial items := rfl

theorem executeAll_append (items items' : List (Except CfiError Instruction))
    (machine : RowMachine) :
    executeAll arch initial (items ++ items') machine =
      executeAll arch initial items machine >>= executeAll arch initial items' :=
  List.foldlM_append

theorem run_append (hwithin : ∀ target ∈ moves location program, target ≤ pc)
    (items : List (Except CfiError Instruction)) (machine : RowMachine) :
    run arch initial pc location (program.map .ok ++ items) machine =
      executeAll arch initial (program.map .ok) machine >>=
        run arch initial pc (reached location program) items := by
  induction program generalizing location machine with
  | nil => rfl
  | cons instruction program ih =>
    rw [List.map_cons, List.cons_append, run, executeAll_cons]
    cases htarget : instruction.target location with
    | some target =>
      rw [moves_of_target htarget] at hwithin
      have htarget' : ¬ pc < target := UInt64.not_lt.mpr (hwithin target List.mem_cons_self)
      have hrest := fun later hlater => hwithin later (List.mem_cons_of_mem target hlater)
      rw [execute_of_target htarget, reached_of_target htarget]
      exact (if_neg htarget').trans (ih hrest machine)
    | none =>
      rw [moves_of_none htarget] at hwithin
      rw [reached_of_none htarget]
      cases machine.execute arch initial instruction with
      | error error => rfl
      | ok machine => exact ih hwithin machine

section Saved

theorem saved_of_assign {r : Register} {rule : Rule} (h : machine.assign arch r rule = .ok machine') :
    machine'.saved = machine.saved := by
  simp only [assign, Outcome.bind_eq_ok, Outcome.pure_eq_ok] at h
  obtain ⟨_, _, _, _, rfl⟩ := h
  rfl

theorem saved_of_assignAll {rules : List (Register × Rule)}
    (h : machine.assignAll arch rules = .ok machine') : machine'.saved = machine.saved := by
  induction rules generalizing machine with
  | nil =>
    cases h
    rfl
  | cons rule rules ih =>
    obtain ⟨after, hassign, hrest⟩ := Outcome.bind_eq_ok.mp h
    rw [ih hrest, saved_of_assign hassign]

/-- Of the rows put aside an instruction touches none but the latest, and that only if
it is one of two. -/
inductive Saves (machine machine' : RowMachine) : Instruction → Prop
  | remember : machine.saved.length < Row.savedLimit →
      machine' = { machine with saved := machine.row :: machine.saved } →
      Saves machine machine' .rememberState
  | restore : machine.saved = machine'.row :: machine'.saved →
      Saves machine machine' .restoreState
  | other {instruction : Instruction} : opens [instruction] = 0 → closes [instruction] = 0 →
      machine'.saved = machine.saved → Saves machine machine' instruction

theorem saves_of_execute {instruction : Instruction}
    (h : machine.execute arch initial instruction = .ok machine') :
    Saves machine machine' instruction := by
  cases instruction with
  | rememberState =>
    rw [execute] at h
    by_cases hroom : machine.saved.length < Row.savedLimit
    · rw [if_pos hroom] at h
      exact .remember hroom (Except.ok.inj h).symm
    · rw [if_neg hroom] at h
      cases h
  | restoreState =>
    rw [execute] at h
    cases hsaved : machine.saved with
    | nil =>
      rw [hsaved] at h
      cases h
    | cons row saved =>
      rw [hsaved] at h
      cases h
      exact .restore hsaved
  | setLocation | advance | nop | defCfaExpression | argsSize | negateSignState =>
    cases h
    exact .other rfl rfl rfl
  | defCfa | defCfaRegister =>
    obtain ⟨_, _, hcfa⟩ := Outcome.bind_eq_ok.mp h
    cases hcfa
    exact .other rfl rfl rfl
  | defCfaOffset =>
    rw [execute] at h
    cases hcfa : machine.row.cfa with
    | registerOffset =>
      rw [hcfa] at h
      cases h
      exact .other rfl rfl rfl
    | _ =>
      rw [hcfa] at h
      cases h
  | undefined | sameValue | offset | valOffset | expression | valExpression | restore =>
    exact .other rfl rfl (saved_of_assign h)
  | register =>
    obtain ⟨_, _, hassign⟩ := Outcome.bind_eq_ok.mp h
    exact .other rfl rfl (saved_of_assign hassign)
  | windowSave => exact .other rfl rfl (saved_of_assignAll h)

theorem Saves.length {instruction : Instruction} (h : Saves machine machine' instruction) :
    machine'.saved.length + closes [instruction] =
      machine.saved.length + opens [instruction] := by
  cases h with
  | remember _ hmachine =>
    rw [hmachine]
    rfl
  | restore hsaved =>
    rw [hsaved]
    rfl
  | other hopens hcloses hsaved => rw [hsaved, hopens, hcloses]

theorem Saves.length_le {instruction : Instruction} (h : Saves machine machine' instruction)
    (hle : machine.saved.length ≤ Row.savedLimit) :
    machine'.saved.length ≤ Row.savedLimit := by
  cases h with
  | remember hroom hmachine =>
    rw [hmachine]
    exact hroom
  | restore hsaved =>
    rw [hsaved] at hle
    exact Nat.le_of_succ_le hle
  | other _ _ hsaved =>
    rw [hsaved]
    exact hle

theorem length_saved (h : executeAll arch initial (program.map .ok) machine = .ok machine') :
    machine'.saved.length + closes program = machine.saved.length + opens program := by
  induction program generalizing machine with
  | nil =>
    cases h
    rfl
  | cons instruction program ih =>
    rw [List.map_cons, executeAll_cons] at h
    obtain ⟨after, hfirst, hrest⟩ := Outcome.bind_eq_ok.mp h
    have hstep := (saves_of_execute hfirst).length
    have hlength := ih hrest
    rw [opens_cons, closes_cons]
    omega

theorem length_saved_le (h : executeAll arch initial items machine = .ok machine')
    (hle : machine.saved.length ≤ Row.savedLimit) :
    machine'.saved.length ≤ Row.savedLimit := by
  induction items generalizing machine with
  | nil =>
    cases h
    exact hle
  | cons item items ih =>
    cases item with
    | error error => cases h
    | ok instruction =>
      rw [executeAll_cons] at h
      obtain ⟨after, hfirst, hrest⟩ := Outcome.bind_eq_ok.mp h
      exact ih hrest ((saves_of_execute hfirst).length_le hle)

section Above

variable {above below : List Row}

theorem Saves.exists_above {instruction : Instruction} (h : Saves machine machine' instruction)
    (hsaved : machine.saved = above ++ below)
    (hinside : closes [instruction] ≤ above.length + opens [instruction]) :
    ∃ above', machine'.saved = above' ++ below ∧
      above'.length + closes [instruction] = above.length + opens [instruction] := by
  cases h with
  | remember _ hmachine =>
    refine ⟨machine.row :: above, ?_, rfl⟩
    rw [hmachine, hsaved]
    rfl
  | restore htaken =>
    cases above with
    | nil => exact absurd hinside (by decide)
    | cons row above =>
      rw [htaken, List.cons_append] at hsaved
      exact ⟨above, List.tail_eq_of_cons_eq hsaved, rfl⟩
  | other hopens hcloses hsame => exact ⟨above, hsame.trans hsaved, by rw [hopens, hcloses]⟩

theorem exists_saved_above (hsaved : machine.saved = above ++ below)
    (hinside : ∀ done, done <+: program → closes done ≤ above.length + opens done)
    (h : executeAll arch initial (program.map .ok) machine = .ok machine') :
    ∃ above', machine'.saved = above' ++ below := by
  induction program generalizing machine above with
  | nil =>
    cases h
    exact ⟨above, hsaved⟩
  | cons instruction program ih =>
    rw [List.map_cons, executeAll_cons] at h
    obtain ⟨after, hfirst, hrest⟩ := Outcome.bind_eq_ok.mp h
    have hone : [instruction] <+: instruction :: program :=
      List.cons_prefix_cons.mpr ⟨rfl, List.nil_prefix⟩
    obtain ⟨above', hafter, hlength⟩ :=
      (saves_of_execute hfirst).exists_above hsaved (hinside _ hone)
    apply ih hafter _ hrest
    intro done hdone
    have hlater := hinside _ (List.cons_prefix_cons.mpr ⟨rfl, hdone⟩)
    rw [closes_cons, opens_cons] at hlater
    omega

end Above

variable {mid : List Instruction}

theorem saved_of_balanced (hbalanced : Balanced mid)
    (h : executeAll arch initial (mid.map .ok) machine = .ok machine') :
    machine'.saved = machine.saved := by
  have hinside (done : List Instruction) (hdone : done <+: mid) :
      closes done ≤ ([] : List Row).length + opens done := by
    rw [List.length_nil, Nat.zero_add]
    exact hbalanced.inside done hdone
  obtain ⟨above, habove⟩ := exists_saved_above (List.nil_append machine.saved).symm hinside h
  have hlength := length_saved h
  rw [hbalanced.closed, habove, List.length_append] at hlength
  have hnone : above = [] := List.length_eq_zero_iff.mp (by omega)
  rw [habove, hnone, List.nil_append]

theorem eq_of_bracket (hbalanced : Balanced mid)
    (h : executeAll arch initial ((bracket mid).map .ok) machine = .ok machine') :
    machine' = machine := by
  rw [bracket, List.map_cons, executeAll_cons, List.map_append] at h
  obtain ⟨opened, hopen, hrest⟩ := Outcome.bind_eq_ok.mp h
  rw [executeAll_append] at hrest
  obtain ⟨after, hmid, hlast⟩ := Outcome.bind_eq_ok.mp hrest
  obtain ⟨closed, hclose, hend⟩ := Outcome.bind_eq_ok.mp hlast
  cases hend
  have hclose : after.execute arch initial .restoreState = .ok machine' := hclose
  have hopened : opened.saved = machine.row :: machine.saved := by
    cases saves_of_execute hopen with
    | remember _ hopened => rw [hopened]
    | other hopens => cases hopens
  cases saves_of_execute hclose with
  | restore htaken =>
    rw [saved_of_balanced hbalanced hmid, hopened] at htaken
    cases machine
    cases machine'
    cases htaken
    rfl
  | other _ hcloses => cases hcloses

theorem run_of_error {instruction : Instruction} {error : CfiError}
    (htarget : instruction.target location = none)
    (h : machine.execute arch initial instruction = .error error) :
    run arch initial pc location (.ok instruction :: items) machine = .error error := by
  simp only [run, htarget, h]
  rfl

theorem execute_rememberState_full (h : machine.saved.length = Row.savedLimit) :
    machine.execute arch initial .rememberState = .error (.rememberOverflow Row.savedLimit) :=
  if_neg (Nat.not_lt.mpr (Nat.le_of_eq h.symm))

theorem execute_restoreState_empty (h : machine.saved = []) :
    machine.execute arch initial .restoreState = .error .restoreUnderflow := by
  rw [execute, h]

end Saved

end RowMachine

namespace Row

variable {space : AddressSpace} {bases : Bases} {common : CommonEntry} {entry : FrameEntry}
  {first : RowMachine}

/-- What becomes of the rows that the program of a function puts aside, where `first` is
what the common entry has left. -/
structure KeepsSaved (arch : Arch) (space : AddressSpace) (bases : Bases) (common : CommonEntry)
    (entry : FrameEntry) (first : RowMachine) (pc : Word) : Prop where
  /-- The machine is behind a bracket what it was before, and goes on from the location
  that it has come to. -/
  restored : ∀ pre mid post row,
    Instruction.items (common.dialect bases arch) space entry.instructions =
      (pre ++ bracket mid).map .ok ++ post →
    Balanced mid → (∀ target ∈ moves entry.pcStart (pre ++ mid), target ≤ pc) →
    inForce arch space bases common entry pc = .ok row →
    ∃ before,
      executeAll arch (some first.row) (pre.map .ok) ⟨first.row, []⟩ = .ok before ∧
      executeAll arch (some first.row) ((pre ++ bracket mid).map .ok) ⟨first.row, []⟩ =
        .ok before ∧
      (run arch (some first.row) pc (reached entry.pcStart (pre ++ mid)) post before).map (·.row) =
        .ok row
  bounded : ∀ done machine,
    done <+: Instruction.items (common.dialect bases arch) space entry.instructions →
    executeAll arch (some first.row) done ⟨first.row, []⟩ = .ok machine →
    machine.saved.length ≤ 16
  boundedCommon : ∀ done machine,
    done <+: Instruction.items (common.dialect bases arch) space common.instructions →
    executeAll arch none done
      ⟨{ empty common.returnAddress with signalFrame := common.isSignalFrame }, []⟩ =
        .ok machine →
    machine.saved.length ≤ 16
  overflow : ∀ done rest machine,
    Instruction.items (common.dialect bases arch) space entry.instructions =
      done.map .ok ++ .ok .rememberState :: rest →
    (∀ target ∈ moves entry.pcStart done, target ≤ pc) →
    executeAll arch (some first.row) (done.map .ok) ⟨first.row, []⟩ = .ok machine →
    opens done = closes done + 16 →
    inForce arch space bases common entry pc = .error (.rememberOverflow 16)
  /-- However many rows the common entry has put aside. -/
  underflow : ∀ done rest machine,
    Instruction.items (common.dialect bases arch) space entry.instructions =
      done.map .ok ++ .ok .restoreState :: rest →
    (∀ target ∈ moves entry.pcStart done, target ≤ pc) →
    executeAll arch (some first.row) (done.map .ok) ⟨first.row, []⟩ = .ok machine →
    opens done = closes done →
    inForce arch space bases common entry pc = .error .restoreUnderflow

theorem inForce_append (hfirst : initial arch space bases common = .ok first)
    {program : List Instruction} {items : List (Except CfiError Instruction)}
    (hprogram : Instruction.items (common.dialect bases arch) space entry.instructions =
      program.map .ok ++ items)
    (hwithin : ∀ target ∈ moves entry.pcStart program, target ≤ pc) :
    inForce arch space bases common entry pc =
      (executeAll arch (some first.row) (program.map .ok) ⟨first.row, []⟩ >>= fun machine =>
        (run arch (some first.row) pc (reached entry.pcStart program) items machine).map
          (·.row)) := by
  rw [inForce_eq, hfirst, hprogram]
  change (run arch (some first.row) pc entry.pcStart (program.map .ok ++ items)
    ⟨first.row, []⟩).map (·.row) = _
  rw [run_append hwithin]
  cases executeAll arch (some first.row) (program.map .ok) ⟨first.row, []⟩ <;> rfl

/-- Brackets leave no trace in the row of a function, and are counted for each function
by itself. -/
theorem inForce_keepsSaved (hfirst : initial arch space bases common = .ok first) (pc : Word) :
    KeepsSaved arch space bases common entry first pc where
  restored pre mid post row hprogram hbalanced hwithin hrow := by
    rw [← moves_bracket] at hwithin
    rw [inForce_append hfirst hprogram hwithin, reached_bracket] at hrow
    obtain ⟨after, hafter, hpost⟩ := Outcome.bind_eq_ok.mp hrow
    have hsplit := hafter
    rw [List.map_append, executeAll_append] at hsplit
    obtain ⟨before, hbefore, hbracket⟩ := Outcome.bind_eq_ok.mp hsplit
    rw [eq_of_bracket hbalanced hbracket] at hafter hpost
    exact ⟨before, hbefore, hafter, hpost⟩
  bounded _ _ _ h := length_saved_le h (Nat.zero_le _)
  boundedCommon _ _ _ h := length_saved_le h (Nat.zero_le _)
  overflow done rest machine hprogram hwithin hdone hopens := by
    have hlength := length_saved hdone
    have hfull : machine.saved.length = Row.savedLimit := by
      rw [hopens, List.length_nil] at hlength
      change machine.saved.length = 16
      omega
    rw [inForce_append hfirst hprogram hwithin, hdone]
    change (run arch _ pc _ (.ok .rememberState :: rest) machine).map (·.row) = _
    rw [run_of_error rfl (execute_rememberState_full hfull)]
    rfl
  underflow done rest machine hprogram hwithin hdone hopens := by
    have hlength := length_saved hdone
    have hnone : machine.saved = [] := by
      rw [hopens, List.length_nil] at hlength
      exact List.length_eq_zero_iff.mp (by omega)
    rw [inForce_append hfirst hprogram hwithin, hdone]
    change (run arch _ pc _ (.ok .restoreState :: rest) machine).map (·.row) = _
    rw [run_of_error rfl (execute_restoreState_empty hnone)]
    rfl

/-- A common entry that leaves a row put aside, and a function with a bracket in a
bracket. What is behind the last move cannot be decoded. -/
def nestedMemory : Snapshot where
  endian := .little
  regions := [⟨0x1000, [0x0c, 7, 8, 0x90, 1, 0x0a,
    0x0e, 16, 0x0a, 0x41, 0x0e, 8, 0x0a, 0x83, 2, 0x0b, 0x0b, 0x48, 0x3f]⟩]

def nestedCommon : CommonEntry := { pushCommon with instructions := ⟨0x1000, 0x1006⟩ }

def nestedEntry : FrameEntry := { pushEntry with instructions := ⟨0x1006, 0x1013⟩ }

def nestedFront : List Instruction := [.defCfaOffset 16]

/-- The row is changed in both brackets. -/
def nestedMid : List Instruction :=
  [.advance 1, .defCfaOffset 8, .rememberState, .offset 3 (-16), .restoreState]

theorem inForce_keepsSaved_nested :
    ∃ first before, initial .x86_64 nestedMemory.space .unknown nestedCommon = .ok first ∧
      first.saved.length = 1 ∧
      executeAll .x86_64 (some first.row) (nestedFront.map .ok) ⟨first.row, []⟩ = .ok before ∧
      executeAll .x86_64 (some first.row) ((nestedFront ++ bracket nestedMid).map .ok)
        ⟨first.row, []⟩ = .ok before := by
  have hprogram : Instruction.items (nestedCommon.dialect .unknown .x86_64) nestedMemory.space
      nestedEntry.instructions =
        (nestedFront ++ bracket nestedMid).map .ok ++
          [.ok (.advance 8), .error (.unknownOpcode 0x3f)] := by decide +kernel
  obtain ⟨first, hfirst⟩ :
      ∃ first, initial .x86_64 nestedMemory.space .unknown nestedCommon = .ok first := ⟨_, rfl⟩
  obtain ⟨row, hrow⟩ : ∃ row, inForce .x86_64 nestedMemory.space .unknown nestedCommon
      nestedEntry 0x4001 = .ok row := ⟨_, rfl⟩
  have hbalanced : Balanced nestedMid := by decide
  have hmoves : moves nestedEntry.pcStart (nestedFront ++ nestedMid) = [0x4001] := rfl
  have hwithin : ∀ target ∈ moves nestedEntry.pcStart (nestedFront ++ nestedMid),
      target ≤ 0x4001 := by
    rw [hmoves]
    intro target htarget
    exact UInt64.le_of_eq (List.mem_singleton.mp htarget)
  obtain ⟨before, hbefore, hafter, -⟩ := (inForce_keepsSaved hfirst 0x4001).restored
    nestedFront nestedMid _ row hprogram hbalanced hwithin hrow
  exact ⟨first, before, hfirst, by cases hfirst; rfl, hbefore, hafter⟩

end Row

end Unwinding
