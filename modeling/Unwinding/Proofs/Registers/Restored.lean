import Unwinding.Memory.Snapshot
import Unwinding.Proofs.Registers.Reload
import Unwinding.Proofs.Registers.Rules

/-!
# The caller's registers, one by one

A row is applied by a loop that writes one register after the other into a
copy of the callee's file. What the loop leaves is described here without it:
each slot holds the value of the one rule that names it, evaluated in the
callee, or else what the callee had there. Two registers never share a slot,
so no write undoes another, and the order of the writes is of no consequence.
-/

namespace Unwinding

variable {arch : Arch}

namespace Row

/-- The rule of register `r` decides what the caller finds in it. The return
address has no such say, and neither has a column that names the instruction
pointer. -/
def Governs (row : Row) (arch : Arch) (r : Register) : Prop :=
  r ≤ arch.highest ∧ r ≠ row.returnAddress ∧ arch.slot r ≠ some .ip ∧ row.rule r ≠ .unused

/-- Where the call left the return address, or where its rule says it is. -/
def ReturnsTo (row : Row) (callee : Callee arch) (address : Word) : Prop :=
  if row.rule row.returnAddress = .unused then callee.file.get row.returnAddress = .ok address
  else callee.Gives .integer (.word address) (row.rule row.returnAddress)

/-- The caller's registers, told from the callee's. -/
structure Restores (row : Row) (callee : Callee arch) (new : RegisterFile arch) : Prop where
  /-- A register with a rule holds the value of the rule. -/
  ruled : ∀ r, row.Governs arch r → ∃ s, arch.slot r = some s ∧
    (¬ new.Reloaded callee.space s →
      callee.Gives s.registerClass (new.content s) (row.rule r))
  sp : ¬ row.Governs arch arch.sp → new.sp = callee.cfa
  /-- A slot that no rule names is as in the callee. -/
  kept : ∀ s, s ≠ .ip → arch.slot arch.sp ≠ some s →
    (∀ r, row.Governs arch r → arch.slot r ≠ some s) → ¬ new.Reloaded callee.space s →
    new.content s = callee.file.content s
  ip : ∃ address, row.ReturnsTo callee address ∧
    new.ip = arch.adjustReturnAddress (callee.file.authenticate address row.raSigned)
  reloaded : ∀ offset, new.ReloadsFrom callee.space offset →
    ∃ table, callee.space.pointer (new.sp + offset) = .ok table ∧ new.get 2 = .ok table

/-- The caller's registers, restored one after the other in a given order. -/
def applyInOrder (row : Row) (order : List (Register × Rule)) (space : AddressSpace)
    (file : RegisterFile arch) : Except StepError (RegisterFile arch) := do
  let cfa ← row.frameAddress space file
  let callee : Callee arch := ⟨space, file, cfa⟩
  let new ← order.foldlM (fun new (r, rule) => callee.restore new r rule) (file.setSp cfa)
  let target ← row.returnTarget callee
  let new := new.setIp target
  if target = 0 then return new else new.repair space

theorem apply_eq (row : Row) (space : AddressSpace) (file : RegisterFile arch) :
    row.apply space file = row.applyInOrder (row.restored arch) space file := rfl

theorem mem_restored {row : Row} {r : Register} {rule : Rule} :
    (r, rule) ∈ row.restored arch ↔
      r ≤ arch.highest ∧ r ≠ row.returnAddress ∧ row.rule r ≠ .unused ∧ row.rule r = rule := by
  simp only [restored, Arch.columns, List.mem_filterMap, List.mem_range, Nat.lt_succ_iff]
  constructor
  · rintro ⟨r', hr', h⟩
    split at h
    · cases h
    · rename_i hc
      cases h
      exact ⟨hr', fun he => hc (.inl he), fun he => hc (.inr he), rfl⟩
  · rintro ⟨hr, hra, hu, rfl⟩
    exact ⟨r, hr, if_neg (not_or.mpr ⟨hra, hu⟩)⟩

theorem nodup_restored (row : Row) (arch : Arch) : ((row.restored arch).map Prod.fst).Nodup := by
  unfold restored
  rw [List.map_filterMap]
  refine List.nodup_range.filterMap ?_
  intro r r' b hb hb'
  split at hb
  · cases hb
  · split at hb'
    · cases hb'
    · cases hb
      cases hb'
      rfl

theorem returnTarget_eq_ok {row : Row} {callee : Callee arch} {target : Word} :
    row.returnTarget callee = .ok target ↔ ∃ address, row.ReturnsTo callee address ∧
      arch.adjustReturnAddress (callee.file.authenticate address row.raSigned) = target := by
  simp only [returnTarget, Outcome.bind_eq_ok, Outcome.pure_eq_ok]
  refine exists_congr fun address => and_congr_left fun _ => ?_
  unfold ReturnsTo
  split
  · rename_i hu
    rw [hu, Callee.integer, Outcome.liftM_register_eq_ok]
  · rename_i hu
    rw [← Callee.value_eq_ok (r := row.returnAddress) hu, Callee.value, Outcome.map_eq_ok]
    simp

theorem loop_ok {row : Row} {callee : Callee arch} {middle : RegisterFile arch}
    (h : (row.restored arch).foldlM (fun new (r, rule) => callee.restore new r rule)
      (callee.file.setSp callee.cfa) = .ok middle) :
    (∀ r, row.Governs arch r → ∃ s, arch.slot r = some s ∧
      callee.Gives s.registerClass (middle.content s) (row.rule r)) ∧
    (¬ row.Governs arch arch.sp → middle.sp = callee.cfa) ∧
    ∀ s, s ≠ .ip → arch.slot arch.sp ≠ some s →
      (∀ r, row.Governs arch r → arch.slot r ≠ some s) →
      middle.content s = callee.file.content s := by
  obtain ⟨hvalues, hkept⟩ := (Callee.restoreAll_eq_ok (row.nodup_restored arch)).mp h
  obtain ⟨i, hi⟩ := Arch.slot_sp arch
  have hstart : (callee.file.setSp callee.cfa).content =
      Function.update callee.file.content (.integer i) (.word callee.cfa) :=
    RegisterFile.content_update _ hi rfl _
  have hfree : ∀ s, s ≠ .ip → (∀ r, row.Governs arch r → arch.slot r ≠ some s) →
      ∀ p ∈ row.restored arch, arch.slot p.1 ≠ some s := by
    rintro s hs hgoverned ⟨r, rule⟩ hp hr
    obtain ⟨hle, hra, hu, -⟩ := mem_restored.mp hp
    refine hgoverned r ⟨hle, hra, fun hip => hs ?_, hu⟩ hr
    rw [hr] at hip
    cases hip
    rfl
  refine ⟨?_, ?_, ?_⟩
  · rintro r ⟨hle, hra, -, hu⟩
    obtain ⟨s, hs, hv⟩ := hvalues (r, row.rule r) (mem_restored.mpr ⟨hle, hra, hu, rfl⟩)
    exact ⟨s, hs, (Callee.value_eq_ok hu).mp hv⟩
  · intro hsp
    have hgoverned : ∀ r, row.Governs arch r → arch.slot r ≠ some (.integer i) := by
      intro r hr hs
      exact hsp (Arch.slot_inj hi hs ▸ hr)
    have hc := hkept (.integer i) (hfree _ (by simp) hgoverned)
    rw [hstart, Function.update_self, RegisterFile.sp_eq hi] at hc
    exact RegisterValue.word.inj hc
  · intro s hs hsp hgoverned
    have hne : s ≠ .integer i := fun he => hsp (he ▸ hi)
    rw [hkept s (hfree s hs hgoverned), hstart, Function.update_of_ne hne]

theorem restores_of_apply {row : Row} {space : AddressSpace} {old new : RegisterFile arch}
    (h : row.apply space old = .ok new) :
    ∃ cfa, row.frameAddress space old = .ok cfa ∧ row.Restores ⟨space, old, cfa⟩ new := by
  simp only [apply, Outcome.bind_eq_ok] at h
  obtain ⟨cfa, hcfa, middle, hmiddle, target, htarget, hnew⟩ := h
  obtain ⟨address, haddress, hadjust⟩ := returnTarget_eq_ok.mp htarget
  obtain ⟨hruled, hsp, hkept⟩ := loop_ok hmiddle
  obtain ⟨hip, hsame, hreloaded⟩ := RegisterFile.resume_ok hnew
  refine ⟨cfa, hcfa, ?_, ?_, ?_, ⟨address, haddress, hip.trans hadjust.symm⟩, hreloaded⟩
  · intro r hr
    obtain ⟨s, hs, hgives⟩ := hruled r hr
    refine ⟨s, hs, fun hr' => ?_⟩
    have hne : s ≠ .ip := fun he => hr.2.2.1 (he ▸ hs)
    rw [hsame s hne hr']
    exact hgives
  · intro hg
    rw [← hsp hg]
    exact RegisterFile.sp_congr fun s hs =>
      hsame s (RegisterFile.sp_slot_ne_ip hs) (RegisterFile.sp_not_reloaded hs)
  · intro s hs hnsp hgoverned hr'
    rw [hsame s hs hr', hkept s hs hnsp hgoverned]

theorem returnsTo_unique {row : Row} {callee : Callee arch} {address address' : Word}
    (h : row.ReturnsTo callee address) (h' : row.ReturnsTo callee address') :
    address = address' := by
  unfold ReturnsTo at h h'
  split at h
  · rename_i hu
    rw [if_pos hu, h] at h'
    exact Except.ok.inj h'
  · rename_i hu
    rw [if_neg hu] at h'
    exact RegisterValue.word.inj (Callee.gives_unique h h')

theorem Restores.ip_unique {row : Row} {callee : Callee arch} {new new' : RegisterFile arch}
    (h : row.Restores callee new) (h' : row.Restores callee new') : new.ip = new'.ip := by
  obtain ⟨address, ha, hip⟩ := h.ip
  obtain ⟨address', ha', hip'⟩ := h'.ip
  rw [hip, hip', returnsTo_unique ha ha']

theorem Restores.content_unique {row : Row} {callee : Callee arch} {new new' : RegisterFile arch}
    (h : row.Restores callee new) (h' : row.Restores callee new') {s : Slot} (hs : s ≠ .ip)
    (hr : ¬ new.Reloaded callee.space s) : new.content s = new'.content s := by
  have hr' : ¬ new'.Reloaded callee.space s :=
    fun hr' => hr ((RegisterFile.reloaded_congr (h.ip_unique h') _ _).mpr hr')
  by_cases hgoverned : ∃ r, row.Governs arch r ∧ arch.slot r = some s
  · obtain ⟨r, hg, hslot⟩ := hgoverned
    obtain ⟨t, ht, hgives⟩ := h.ruled r hg
    obtain ⟨t', ht', hgives'⟩ := h'.ruled r hg
    rw [hslot] at ht ht'
    cases ht
    cases ht'
    exact Callee.gives_unique (hgives hr) (hgives' hr')
  · by_cases hsp : arch.slot arch.sp = some s
    · have hg : ¬ row.Governs arch arch.sp := fun hg => hgoverned ⟨_, hg, hsp⟩
      rw [RegisterFile.sp_eq hsp, RegisterFile.sp_eq hsp, h.sp hg, h'.sp hg]
    · have hg : ∀ r, row.Governs arch r → arch.slot r ≠ some s :=
        fun r hr hslot => hgoverned ⟨r, hr, hslot⟩
      rw [h.kept s hs hsp hg hr, h'.kept s hs hsp hg hr']

theorem Restores.unique {row : Row} {callee : Callee arch} {new new' : RegisterFile arch}
    (h : row.Restores callee new) (h' : row.Restores callee new') : new = new' := by
  have hip := h.ip_unique h'
  have hsp : new.sp = new'.sp := RegisterFile.sp_congr fun s hs =>
    h.content_unique h' (RegisterFile.sp_slot_ne_ip hs) (RegisterFile.sp_not_reloaded hs)
  refine RegisterFile.content_inj.mp (funext fun s => ?_)
  by_cases hs : s = .ip
  · rw [hs, RegisterFile.ip_eq, RegisterFile.ip_eq, hip]
  · by_cases hr : new.Reloaded callee.space s
    · obtain ⟨hslot, offset, ho⟩ := hr
      obtain ⟨table, ht, hget⟩ := h.reloaded offset ho
      obtain ⟨table', ht', hget'⟩ :=
        h'.reloaded offset ((RegisterFile.reloadsFrom_congr hip _ _).mp ho)
      rw [hsp, ht'] at ht
      cases ht
      obtain ⟨t, hts, -, hc⟩ := RegisterFile.get_eq_ok.mp hget
      obtain ⟨t', hts', -, hc'⟩ := RegisterFile.get_eq_ok.mp hget'
      rw [hslot] at hts hts'
      cases hts
      cases hts'
      rw [hc, hc']
    · exact h.content_unique h' hs hr

/-- Where the caller loads nothing again, a row can be applied as soon as its rules
describe a file, if no rule is for the instruction pointer. -/
theorem apply_of_restores {row : Row} {space : AddressSpace} {old new : RegisterFile arch}
    {cfa : Word} (harch : arch ≠ .ppc64) (hcfa : row.frameAddress space old = .ok cfa)
    (hip : ∀ r, r ≠ row.returnAddress → row.rule r ≠ .unused → arch.slot r ≠ some .ip)
    (h : row.Restores ⟨space, old, cfa⟩ new) : row.apply space old = .ok new := by
  let callee : Callee arch := ⟨space, old, cfa⟩
  have hvalues : ∀ p ∈ row.restored arch, ∃ s value, arch.slot p.1 = some s ∧
      callee.value p.1 p.2 s.registerClass = .ok value := by
    rintro ⟨r, rule⟩ hp
    obtain ⟨hle, hra, hunused, rfl⟩ := mem_restored.mp hp
    obtain ⟨s, hs, hgives⟩ := h.ruled r ⟨hle, hra, hip r hra hunused, hunused⟩
    exact ⟨s, new.content s, hs, (Callee.value_eq_ok hunused).mpr
      (hgives (new.not_reloaded harch space s))⟩
  obtain ⟨middle, hmiddle⟩ := Callee.restoreAll_exists hvalues (old.setSp cfa)
  obtain ⟨address, hreturns, -⟩ := h.ip
  obtain ⟨target, htarget⟩ : ∃ target, row.returnTarget callee = .ok target :=
    ⟨_, returnTarget_eq_ok.mpr ⟨address, hreturns, rfl⟩⟩
  have happly : row.apply space old = .ok (middle.setIp target) := by
    refine Outcome.bind_eq_ok.mpr ⟨cfa, hcfa, Outcome.bind_eq_ok.mpr ⟨middle, hmiddle, ?_⟩⟩
    refine Outcome.bind_eq_ok.mpr ⟨_, htarget, ?_⟩
    dsimp only
    rw [RegisterFile.repair_eq_self harch]
    split <;> rfl
  obtain ⟨cfa', hcfa', hrestores⟩ := restores_of_apply happly
  rw [hcfa] at hcfa'
  cases hcfa'
  rw [happly, h.unique hrestores]

theorem applyInOrder_perm {row : Row} {order : List (Register × Rule)} {space : AddressSpace}
    {old new : RegisterFile arch} (h : order.Perm (row.restored arch)) :
    row.applyInOrder order space old = .ok new ↔ row.apply space old = .ok new := by
  have hn : (order.map Prod.fst).Nodup :=
    (h.map Prod.fst).nodup_iff.mpr (row.nodup_restored arch)
  have hloop : ∀ (callee : Callee arch) (start middle : RegisterFile arch),
      order.foldlM (fun new (r, rule) => callee.restore new r rule) start = .ok middle ↔
        (row.restored arch).foldlM (fun new (r, rule) => callee.restore new r rule) start =
          .ok middle := by
    intro callee start middle
    rw [Callee.restoreAll_eq_ok hn, Callee.restoreAll_eq_ok (row.nodup_restored arch)]
    simp only [h.mem_iff]
  rw [apply_eq]
  simp only [applyInOrder, Outcome.bind_eq_ok, hloop]

/-- When a row can be applied, the caller's registers are those that the rules
tell one by one from the callee's, whatever the order they are restored in. -/
theorem apply_pointwise {row : Row} {space : AddressSpace} {old new : RegisterFile arch}
    (h : row.apply space old = .ok new) :
    ∃ cfa, row.frameAddress space old = .ok cfa ∧
      row.Restores ⟨space, old, cfa⟩ new ∧
      (∀ new', row.Restores ⟨space, old, cfa⟩ new' → new' = new) ∧
      ∀ order, order.Perm (row.restored arch) → row.applyInOrder order space old = .ok new := by
  obtain ⟨cfa, hcfa, hnew⟩ := restores_of_apply h
  exact ⟨cfa, hcfa, hnew, fun new' hnew' => hnew'.unique hnew,
    fun order horder => (applyInOrder_perm horder).mpr h⟩

/-- A function that saved its return address and one register. -/
def savedTwo : Row :=
  { empty 65 with
    cfa := .registerOffset 1 0x20
    rules := ((Vector.replicate capacity .unused).set 65 (.inCfa 16)).set 31 (.inCfa (-8)) }

/-- Its stack frame, and the instruction behind the call, which loads the
table pointer. -/
def savedTwoMemory : Snapshot where
  endian := .big
  regions := [⟨0x1000, [0xe8, 0x41, 0x00, 0x18]⟩, ⟨0x8018, [0, 0, 0, 0, 0, 0, 0, 5]⟩,
    ⟨0x8030, [0, 0, 0, 0, 0, 0, 0x10, 0]⟩, ⟨0x8038, [0, 0, 0, 0, 0, 0, 0x70, 0]⟩]

def savedTwoCallee : RegisterFile .ppc64 := RegisterFile.zero.setSp 0x8000

theorem apply_pointwise_savedTwo :
    ∃ new, savedTwo.apply savedTwoMemory.space savedTwoCallee = .ok new ∧
      (new.get 31 = .ok 5 ∧ new.get 2 = .ok 0x7000 ∧ new.ip = 0x1000 ∧ new.sp = 0x8020) ∧
      ∃ cfa, savedTwo.frameAddress savedTwoMemory.space savedTwoCallee = .ok cfa ∧
        savedTwo.Restores ⟨savedTwoMemory.space, savedTwoCallee, cfa⟩ new ∧
        (∀ new', savedTwo.Restores ⟨savedTwoMemory.space, savedTwoCallee, cfa⟩ new' → new' = new) ∧
        ∀ order, order.Perm (savedTwo.restored .ppc64) →
          savedTwo.applyInOrder order savedTwoMemory.space savedTwoCallee = .ok new :=
  ⟨_, rfl, by decide, apply_pointwise rfl⟩

end Row

end Unwinding
