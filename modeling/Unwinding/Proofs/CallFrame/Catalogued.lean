import Unwinding.Proofs.CallFrame.Table

/-!
# Rules name registers of the architecture only

An instruction can carry any number that fits 16 bits as the number of a register. The
machine that runs it looks the number up in the catalog of the architecture before a
rule is written, so whatever the instructions are, no row has a rule for a register
outside of the catalog, copies from one, or finds the frame address through one. Rows
that are put aside and come back are no exception.

The column of the return address is not written by an instruction, and is not looked up.
-/

namespace Unwinding

variable {arch : Arch}

namespace Row

/-- All registers that the rules of the row name are in the catalog. -/
structure Catalogued (arch : Arch) (row : Row) : Prop where
  ruled : ∀ r, row.rule r ≠ .unused → r ≤ arch.highest
  source : ∀ r source, row.rule r = .inRegister source → source ≤ arch.highest
  cfa : ∀ r offset, row.cfa = .registerOffset r offset → r ≤ arch.highest

theorem catalogued_empty (arch : Arch) (returnAddress : Register) :
    (empty returnAddress).Catalogued arch where
  ruled r h := absurd (rule_empty returnAddress r) h
  source r source h := by
    rw [rule_empty] at h
    cases h
  cfa _ _ h := nomatch h

theorem Catalogued.congr {row row' : Row} (h : row.Catalogued arch) (hrules : row'.rules = row.rules)
    (hcfa : row'.cfa = row.cfa) : row'.Catalogued arch where
  ruled r := by
    unfold rule
    rw [hrules]
    exact h.ruled r
  source r := by
    unfold rule
    rw [hrules]
    exact h.source r
  cfa := hcfa ▸ h.cfa

theorem Catalogued.setRule {row row' : Row} {r : Register} {rule : Rule} (h : row.Catalogued arch)
    (hr : r ≤ arch.highest) (hrule : ∀ source, rule = .inRegister source → source ≤ arch.highest)
    (hset : row.setRule r rule = .ok row') : row'.Catalogued arch := by
  have hcfa : row'.cfa = row.cfa := by
    unfold Row.setRule at hset
    split at hset <;> cases hset
    rfl
  refine ⟨fun r' hused => ?_, fun r' source hsource => ?_, hcfa ▸ h.cfa⟩
  · rw [rule_setRule hset] at hused
    split at hused
    · rename_i hsame
      exact hsame ▸ hr
    · exact h.ruled r' hused
  · rw [rule_setRule hset] at hsource
    split at hsource
    · exact hrule source hsource
    · exact h.source r' source hsource

end Row

namespace RowMachine

variable {initial : Option Row} {machine machine' : RowMachine} {pc location : Word}
  {instruction : Instruction} {items : List (Except CfiError Instruction)}

/-- So are those of the row being written and of all rows put aside. -/
structure Catalogued (arch : Arch) (machine : RowMachine) : Prop where
  row : machine.row.Catalogued arch
  saved : ∀ row ∈ machine.saved, row.Catalogued arch

@[simp] theorem catalogued_eq_ok {r r' : Register} :
    catalogued arch r = .ok r' ↔ r ≤ arch.highest ∧ r = r' := by
  unfold catalogued
  by_cases h : r ≤ arch.highest <;> simp [h]

theorem Catalogued.setCfa {cfa : CfaRule} (h : machine.Catalogued arch)
    (hcfa : ∀ r offset, cfa = .registerOffset r offset → r ≤ arch.highest) :
    (machine.setCfa cfa).Catalogued arch :=
  ⟨⟨h.row.ruled, h.row.source, hcfa⟩, h.saved⟩

theorem Catalogued.assign {r : Register} {rule : Rule} (h : machine.Catalogued arch)
    (hrule : ∀ source, rule = .inRegister source → source ≤ arch.highest)
    (hassign : machine.assign arch r rule = .ok machine') : machine'.Catalogued arch := by
  simp only [RowMachine.assign, Outcome.bind_eq_ok, Outcome.pure_eq_ok, catalogued_eq_ok] at hassign
  obtain ⟨_, ⟨hr, rfl⟩, row, hset, rfl⟩ := hassign
  exact ⟨h.row.setRule hr hrule hset, h.saved⟩

theorem Catalogued.assignAll {rules : List (Register × Rule)} (h : machine.Catalogued arch)
    (hrules : ∀ r source, (r, .inRegister source) ∈ rules → source ≤ arch.highest)
    (hassign : machine.assignAll arch rules = .ok machine') : machine'.Catalogued arch := by
  induction rules generalizing machine with
  | nil =>
    cases hassign
    exact h
  | cons rule rules ih =>
    obtain ⟨r, rule⟩ := rule
    obtain ⟨middle, hfirst, hrest⟩ := Outcome.bind_eq_ok.mp hassign
    refine ih (h.assign ?_ hfirst) (fun r source hmem => ?_) hrest
    · rintro source rfl
      exact hrules r source List.mem_cons_self
    · exact hrules r source (List.mem_cons_of_mem _ hmem)

/-- The sources of the window are not looked up, but every architecture has them. -/
theorem windowRules_source (arch : Arch) {r source : Register}
    (h : (r, .inRegister source) ∈ windowRules) : source ≤ arch.highest := by
  have hlast : source ≤ 31 := by
    simp only [windowRules, List.mem_append, List.mem_map, List.mem_range, Prod.mk.injEq,
      Rule.inRegister.injEq, reduceCtorEq, and_false, exists_const, or_false] at h
    obtain ⟨i, hi, -, rfl⟩ := h
    exact Nat.add_le_add_left (Nat.le_of_lt_succ hi) 24
  cases arch <;> exact Nat.le_trans hlast (by decide)

theorem Catalogued.execute (h : machine.Catalogued arch)
    (hinitial : ∀ row, initial = some row → row.Catalogued arch)
    (hexecute : machine.execute arch initial instruction = .ok machine') :
    machine'.Catalogued arch := by
  cases instruction with
  | setLocation | advance | nop =>
    cases hexecute
    exact h
  | argsSize | negateSignState =>
    cases hexecute
    exact ⟨h.row.congr rfl rfl, h.saved⟩
  | defCfaExpression =>
    cases hexecute
    exact h.setCfa fun _ _ hcfa => nomatch hcfa
  | defCfa | defCfaRegister =>
    simp only [RowMachine.execute, Outcome.bind_eq_ok, Outcome.pure_eq_ok, catalogued_eq_ok] at hexecute
    obtain ⟨r, ⟨hr, rfl⟩, rfl⟩ := hexecute
    refine h.setCfa ?_
    rintro _ _ ⟨⟩
    exact hr
  | defCfaOffset offset =>
    rw [RowMachine.execute] at hexecute
    cases hcfa : machine.row.cfa with
    | registerOffset r old =>
      rw [hcfa] at hexecute
      cases hexecute
      refine h.setCfa ?_
      rintro _ _ ⟨⟩
      exact h.row.cfa r old hcfa
    | _ =>
      rw [hcfa] at hexecute
      cases hexecute
  | undefined | sameValue | offset | valOffset | expression | valExpression =>
    refine h.assign ?_ hexecute
    rintro _ ⟨⟩
  | register r source =>
    simp only [RowMachine.execute, Outcome.bind_eq_ok, catalogued_eq_ok] at hexecute
    obtain ⟨_, ⟨hsource, rfl⟩, hassign⟩ := hexecute
    refine h.assign ?_ hassign
    rintro _ ⟨⟩
    exact hsource
  | restore r =>
    refine h.assign (fun source hsource => ?_) hexecute
    cases initial with
    | none => cases hsource
    | some row => exact (hinitial row rfl).source r source hsource
  | rememberState =>
    rw [RowMachine.execute] at hexecute
    split at hexecute <;> cases hexecute
    exact ⟨h.row, List.forall_mem_cons.mpr ⟨h.row, h.saved⟩⟩
  | restoreState =>
    rw [RowMachine.execute] at hexecute
    cases hsaved : machine.saved with
    | nil =>
      rw [hsaved] at hexecute
      cases hexecute
    | cons row saved =>
      rw [hsaved] at hexecute
      cases hexecute
      have hrows := h.saved
      rw [hsaved] at hrows
      obtain ⟨hrow, hrest⟩ := List.forall_mem_cons.mp hrows
      exact ⟨hrow, hrest⟩
  | windowSave => exact h.assignAll (fun _ _ => windowRules_source arch) hexecute

theorem Catalogued.run (h : machine.Catalogued arch)
    (hinitial : ∀ row, initial = some row → row.Catalogued arch)
    (hrun : RowMachine.run arch initial pc location items machine = .ok machine') :
    machine'.Catalogued arch := by
  induction items generalizing location machine with
  | nil =>
    cases hrun
    exact h
  | cons item items ih =>
    cases item with
    | error error => cases hrun
    | ok instruction =>
      rw [RowMachine.run] at hrun
      cases htarget : instruction.target location with
      | some target =>
        rw [htarget] at hrun
        dsimp only at hrun
        split at hrun
        · cases hrun
          exact h
        · exact ih h hrun
      | none =>
        rw [htarget] at hrun
        obtain ⟨middle, hexecute, hrest⟩ := Outcome.bind_eq_ok.mp hrun
        exact ih (h.execute hinitial hexecute) hrest

end RowMachine

namespace Row

variable {space : AddressSpace} {bases : Bases} {common : CommonEntry} {entry : FrameEntry}
  {pc : Word} {row : Row}

theorem catalogued_inForce (h : inForce arch space bases common entry pc = .ok row) :
    row.Catalogued arch := by
  simp only [inForce, Outcome.bind_eq_ok, Outcome.pure_eq_ok] at h
  obtain ⟨first, hfirst, last, hlast, rfl⟩ := h
  have hstart : RowMachine.Catalogued arch
      ⟨{ empty common.returnAddress with signalFrame := common.isSignalFrame }, []⟩ :=
    ⟨(catalogued_empty arch common.returnAddress).congr rfl rfl,
      fun _ hsaved => absurd hsaved List.not_mem_nil⟩
  have hcommon : first.row.Catalogued arch := by
    refine (hstart.run ?_ hfirst).row
    rintro _ ⟨⟩
  have hbegins : RowMachine.Catalogued arch ⟨first.row, []⟩ :=
    ⟨hcommon, fun _ hsaved => absurd hsaved List.not_mem_nil⟩
  refine (hbegins.run ?_ hlast).row
  rintro _ ⟨⟩
  exact hcommon

theorem catalogued_rowAt {address : Word}
    (h : FrameEntry.rowAt arch space bases address pc = .ok (row, entry, common)) :
    row.Catalogued arch :=
  catalogued_inForce (FrameEntry.rowAt_eq_ok.mp h).2

theorem rule_beyond (row : Row) {r : Register} (h : capacity ≤ r) : row.rule r = .unused := by
  unfold rule
  rw [Vector.getElem?_eq_none h]
  rfl

end Row

end Unwinding
