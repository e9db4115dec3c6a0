import Mathlib.Data.List.Nodup
import Unwinding.Proofs.Registers.Content

/-!
# What rules give

A rule gives a register its value from the callee: its registers, its memory,
and the frame address. The description does not mention the file that is
being written, and so restoring several registers comes down to one statement
about each slot. Two registers never share a slot, which is why no write
undoes another.
-/

namespace Unwinding

variable {arch : Arch}

/-- What is saved at an address for a register of the class. -/
def AddressSpace.load (space : AddressSpace) (address : Word) :
    RegisterClass → Except MemoryError RegisterValue
  | .integer => (space.pointer address).map .word
  | .float => (space.get64 address).map .float
  | .vector => (space.get128 address).map .vector

namespace Callee

/-- The rule gives the value to a register of the class. Only the callee's
registers, its memory and the frame address have a say in it. -/
def Gives (callee : Callee arch) (c : RegisterClass) (value : RegisterValue) : Rule → Prop
  | .unused => False
  | .undefined => c.zero = value
  | .inRegister source =>
    ∃ s, arch.slot source = some s ∧ s.registerClass = c ∧ callee.file.content s = value
  | .inCfa n => callee.space.load (callee.cfa + n.toUInt64) c = .ok value
  | .inCfaDecrypted n =>
    c = .integer ∧ ∃ word, callee.space.pointer (callee.cfa + n.toUInt64) = .ok word ∧
      .word (word ^^^ callee.file.cookie) = value
  | .atExpression code =>
    ∃ address, code.evaluate callee.space callee.file callee.cfa = .ok address ∧
      callee.space.load address c = .ok value
  | .isExpression code =>
    c = .integer ∧ ∃ word, code.evaluate callee.space callee.file callee.cfa = .ok word ∧
      .word word = value
  | .offsetFromCfa n => c = .integer ∧ .word (callee.cfa + n.toUInt64) = value

/-- The value that a rule gives to register `r`, which is of the class. -/
def value (callee : Callee arch) (r : Register) (rule : Rule) :
    RegisterClass → Except StepError RegisterValue
  | .integer => (callee.integer r rule).map .word
  | .float => (callee.float r rule).map .float
  | .vector => (callee.vector r rule).map .vector

theorem value_eq_ok {callee : Callee arch} {r : Register} {rule : Rule} {c : RegisterClass}
    {value : RegisterValue} (hr : rule ≠ .unused) :
    callee.value r rule c = .ok value ↔ callee.Gives c value rule := by
  cases rule with
  | unused => exact absurd rfl hr
  | atExpression code =>
    cases c <;>
      simp only [Callee.value, Callee.integer, Callee.float, Callee.vector, Callee.evaluate, Gives,
        AddressSpace.load, Outcome.map_eq_ok, Outcome.bind_eq_ok, Outcome.liftM_expression_eq_ok,
        Outcome.liftM_memory_eq_ok]
    all_goals
      constructor
      · rintro ⟨word, ⟨address, ha, hw⟩, h⟩
        exact ⟨address, ha, word, hw, h⟩
      · rintro ⟨address, ha, word, hw, h⟩
        exact ⟨word, ⟨address, ha, hw⟩, h⟩
  | _ =>
    cases c <;>
      simp [Callee.value, Callee.integer, Callee.float, Callee.vector, Callee.evaluate,
        Callee.offset, Gives, AddressSpace.load, RegisterClass.zero, RegisterFile.read,
        ← RegisterFile.read_eq_ok]

theorem gives_unique {callee : Callee arch} {c : RegisterClass} {rule : Rule}
    {value value' : RegisterValue} (h : callee.Gives c value rule)
    (h' : callee.Gives c value' rule) : value = value' := by
  have hr : rule ≠ .unused := by
    rintro rfl
    exact h
  rw [← value_eq_ok (r := 0) hr] at h h'
  rw [h] at h'
  exact Except.ok.inj h'

theorem value_class {callee : Callee arch} {r : Register} {rule : Rule} {c : RegisterClass}
    {value : RegisterValue} (h : callee.value r rule c = .ok value) : value.registerClass = c := by
  cases c <;> simp only [Callee.value, Outcome.map_eq_ok] at h <;> obtain ⟨_, -, rfl⟩ := h <;> rfl

theorem restore_written {callee : Callee arch} {new new' : RegisterFile arch} {r : Register}
    {s : Slot} (hs : arch.slot r = some s) {rule : Rule} :
    callee.restore new r rule = .ok new' ↔
      ∃ value, callee.value r rule s.registerClass = .ok value ∧ new.write r value = .ok new' := by
  simp only [restore, Arch.registerClass, hs, Option.map_some]
  cases s <;> simp [Slot.registerClass, Callee.value, RegisterFile.write]

theorem restore_eq_ok {callee : Callee arch} {new new' : RegisterFile arch} {r : Register}
    {rule : Rule} :
    callee.restore new r rule = .ok new' ↔
      ∃ s value, arch.slot r = some s ∧ callee.value r rule s.registerClass = .ok value ∧
        new'.content = Function.update new.content s value := by
  cases hs : arch.slot r with
  | none => simp [restore, Arch.registerClass, hs]
  | some s =>
    rw [restore_written hs]
    constructor
    · rintro ⟨value, hv, hw⟩
      obtain ⟨s', hs', -, h⟩ := RegisterFile.write_eq_ok.mp hw
      rw [hs] at hs'
      cases hs'
      exact ⟨s, value, rfl, hv, h⟩
    · rintro ⟨s', value, hs', hv, h⟩
      cases hs'
      exact ⟨value, hv, RegisterFile.write_eq_ok.mpr ⟨s, hs, (value_class hv).symm, h⟩⟩

theorem restoreAll_eq_ok {callee : Callee arch} {start new : RegisterFile arch}
    {rules : List (Register × Rule)} (hn : (rules.map Prod.fst).Nodup) :
    rules.foldlM (fun new (r, rule) => callee.restore new r rule) start = .ok new ↔
      (∀ p ∈ rules, ∃ s, arch.slot p.1 = some s ∧
        callee.value p.1 p.2 s.registerClass = .ok (new.content s)) ∧
      ∀ s, (∀ p ∈ rules, arch.slot p.1 ≠ some s) → new.content s = start.content s := by
  induction rules generalizing start with
  | nil =>
    simp only [List.foldlM_nil, Outcome.pure_eq_ok, List.not_mem_nil, false_implies, implies_true,
      true_and, forall_const]
    rw [← RegisterFile.content_inj, funext_iff]
    exact forall_congr' fun s => eq_comm
  | cons p rules ih =>
    obtain ⟨r, rule⟩ := p
    obtain ⟨hr, hn⟩ := List.nodup_cons.mp hn
    have hfree : ∀ s, arch.slot r = some s → ∀ p ∈ rules, arch.slot p.1 ≠ some s := by
      intro s hs p hp hs'
      exact hr (List.mem_map.mpr ⟨p, hp, Arch.slot_inj hs' hs⟩)
    simp only [List.foldlM_cons, Outcome.bind_eq_ok, List.forall_mem_cons, ih hn]
    constructor
    · rintro ⟨middle, hm, hvalues, hkept⟩
      obtain ⟨s, value, hs, hv, hcontent⟩ := restore_eq_ok.mp hm
      refine ⟨⟨⟨s, hs, ?_⟩, hvalues⟩, ?_⟩
      · rw [hv, hkept s (hfree s hs), hcontent, Function.update_self]
      · rintro t ⟨ht, htail⟩
        have hne : t ≠ s := fun h => ht (h ▸ hs)
        rw [hkept t htail, hcontent, Function.update_of_ne hne]
    · rintro ⟨⟨⟨s, hs, hv⟩, hvalues⟩, hkept⟩
      obtain ⟨middle, hw⟩ := start.write_exists _ hs (value_class hv).symm
      have hm := (restore_written hs).mpr ⟨_, hv, hw⟩
      obtain ⟨s', value, hs', hv', hcontent⟩ := restore_eq_ok.mp hm
      rw [hs] at hs'
      cases hs'
      rw [hv] at hv'
      cases hv'
      refine ⟨middle, hm, hvalues, ?_⟩
      intro t ht
      rw [hcontent, Function.update_apply]
      split
      · rename_i h
        rw [h]
      · rename_i h
        refine hkept t ⟨fun h' => h ?_, ht⟩
        rw [hs] at h'
        cases h'
        rfl

theorem restoreAll_exists {callee : Callee arch} {rules : List (Register × Rule)}
    (h : ∀ p ∈ rules, ∃ s value, arch.slot p.1 = some s ∧
      callee.value p.1 p.2 s.registerClass = .ok value) (start : RegisterFile arch) :
    ∃ new, rules.foldlM (fun new (r, rule) => callee.restore new r rule) start = .ok new := by
  induction rules generalizing start with
  | nil => exact ⟨start, rfl⟩
  | cons p rules ih =>
    obtain ⟨s, value, hs, hv⟩ := h p List.mem_cons_self
    obtain ⟨middle, hw⟩ := start.write_exists value hs (value_class hv).symm
    have hm := (restore_written hs).mpr ⟨value, hv, hw⟩
    obtain ⟨new, hnew⟩ := ih (fun later hlater => h later (List.mem_cons_of_mem _ hlater)) middle
    exact ⟨new, Outcome.bind_eq_ok.mpr ⟨middle, hm, hnew⟩⟩

end Callee

end Unwinding
