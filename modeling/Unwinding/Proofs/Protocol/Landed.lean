import Unwinding.Proofs.Protocol.Written
import Unwinding.Proofs.Registers.Content
import Unwinding.Walker.Restoring

/-!
# What a frame is resumed with

A personality writes to a copy of what is known about its frame. When the frame is
installed, the last value of each register is put into the registers of the frame.
Columns that the copy does not have were ignored, so that all of them can be put there.
Setting the instruction pointer by name goes before writing its column, and only then
are arguments taken off the stack pointer, after it was written itself.
-/

namespace Unwinding

variable {arch : Arch}

namespace ContextWrite

/-- The value that is written last to a slot by its number. Contexts have the integer
registers with a number below 64. -/
def lastValue (arch : Arch) (slot : Slot) (writes : List ContextWrite) : Option Word :=
  if arch.slot (arch.number slot) = some slot ∧ slot.registerClass = .integer ∧
      arch.number slot < 64 then
    lastRegister (arch.number slot) writes
  else none

theorem lastValue_eq_some {slot : Slot} {writes : List ContextWrite} {value : Word} :
    lastValue arch slot writes = some value ↔
      ∃ r < 64, arch.slot r = some slot ∧ slot.registerClass = .integer ∧
        lastRegister r writes = some value := by
  unfold lastValue
  constructor
  · intro h
    split at h
    · next hslot => exact ⟨_, hslot.2.2, hslot.1, hslot.2.1, h⟩
    · cases h
  · rintro ⟨r, hr, hslot, hclass, hlast⟩
    rw [Arch.number_slot hslot, if_pos ⟨hslot, hclass, hr⟩, hlast]

end ContextWrite

open ContextWrite

namespace RegisterFile

/-- The registers that a frame is resumed with, after a personality wrote `writes` to
its context. The arguments of the call, which the caller has pushed, are taken off the
stack if the instruction pointer was set. -/
def landed (file : RegisterFile arch) (argsSize : Word) (writes : List ContextWrite) :
    RegisterFile arch :=
  { file with
    integers := Vector.ofFn fun i =>
      let value := (lastValue arch (.integer i) writes).getD (file.integers.get i)
      if arch.slot arch.sp = some (.integer i) ∧ (lastIp writes).isSome then value + argsSize
      else value
    ip := ((lastIp writes).or (lastValue arch .ip writes)).getD file.ip }

section Landed

variable {file set : RegisterFile arch} {writes : List ContextWrite}
  (hset : ∀ slot, set.content slot = (lastValue arch slot writes).elim (file.content slot) .word)
  (argsSize : Word)

include hset

theorem landed_of_none (h : lastIp writes = none) : file.landed argsSize writes = set := by
  refine content_inj.mp (funext fun slot => ?_)
  rw [hset]
  cases slot with
  | integer i =>
    simp only [content, landed, h, Option.isSome_none, Bool.false_eq_true, and_false, if_false,
      get_eq_getElem, Fin.getElem_fin, Vector.getElem_ofFn]
    cases lastValue arch (.integer i) writes <;> rfl
  | ip =>
    simp only [content, landed, h, Option.none_or]
    cases lastValue arch .ip writes <;> rfl
  | float i | vector i => simp [content, landed, lastValue, Slot.registerClass]

theorem landed_of_some {address : Word} (h : lastIp writes = some address) :
    file.landed argsSize writes =
      (set.setIp address).setSp ((set.setIp address).sp + argsSize) := by
  obtain ⟨i, hi⟩ := Arch.slot_sp arch
  have hsp : (set.setIp address).sp = set.sp := sp_congr fun slot hslot => by
    rw [content_setIp, Function.update_of_ne (sp_slot_ne_ip hslot)]
  have hold := hset (.integer i)
  rw [sp_eq hi] at hold
  refine content_inj.mp (funext fun slot => ?_)
  rw [setSp, content_update _ hi rfl, content_setIp, hsp]
  cases slot with
  | integer j =>
    have hlanded : (file.landed argsSize writes).content (.integer j) =
        .word (if i = j then
            (lastValue arch (.integer j) writes).getD (file.integers.get j) + argsSize
          else (lastValue arch (.integer j) writes).getD (file.integers.get j)) := by
      simp only [content, landed, h, hi, Option.some.injEq, Slot.integer.injEq, Option.isSome_some,
        and_true, get_eq_getElem, Fin.getElem_fin, Vector.getElem_ofFn]
    rw [hlanded]
    by_cases hj : i = j
    · subst hj
      rw [if_pos rfl, Function.update_self]
      cases hlast : lastValue arch (.integer i) writes <;> rw [hlast] at hold <;>
        rw [RegisterValue.word.inj hold] <;> rfl
    · simp only [if_neg hj, Function.update_apply, Slot.integer.injEq, if_neg (Ne.symm hj),
        reduceCtorEq, if_false, hset]
      cases lastValue arch (.integer j) writes <;> rfl
  | ip => simp [content, landed, h]
  | float j | vector j =>
    simp only [Function.update_apply, reduceCtorEq, if_false, hset]
    simp [content, landed, lastValue, Slot.registerClass]

end Landed

theorem foldlM_set {written : List (Register × Word)}
    (integers : ∀ r value, (r, value) ∈ written →
      ∃ slot, arch.slot r = some slot ∧ slot.registerClass = .integer)
    (file : RegisterFile arch) :
    ∃ file', written.foldlM (fun file (r, value) => file.set r value) file = .ok file' ∧
      ∀ slot,
        (∃ r value, (r, value) ∈ written ∧ arch.slot r = some slot ∧
          file'.content slot = .word value) ∨
        (∀ r value, (r, value) ∈ written → arch.slot r ≠ some slot) ∧
          file'.content slot = file.content slot := by
  induction written generalizing file with
  | nil => exact ⟨file, rfl, fun slot => .inr ⟨fun _ _ h => absurd h List.not_mem_nil, rfl⟩⟩
  | cons first rest ih =>
    obtain ⟨r, value⟩ := first
    obtain ⟨slot, hslot, hclass⟩ := integers r value List.mem_cons_self
    obtain ⟨middle, hmiddle⟩ := file.write_exists (.word value) hslot hclass
    obtain ⟨slot', hslot', -, hcontent⟩ := write_eq_ok.mp hmiddle
    cases hslot.symm.trans hslot'
    obtain ⟨file', hfile', hrest⟩ :=
      ih (fun r value h => integers r value (List.mem_cons_of_mem _ h)) middle
    have hset : file.set r value = .ok middle := hmiddle
    refine ⟨file', ?_, fun slot' => ?_⟩
    · rw [List.foldlM_cons]
      dsimp only
      rw [hset]
      exact hfile'
    rcases hrest slot' with ⟨r', value', hmem, hr', hvalue⟩ | ⟨hother, hkept⟩
    · exact .inl ⟨r', value', List.mem_cons_of_mem _ hmem, hr', hvalue⟩
    rw [hcontent, Function.update_apply] at hkept
    by_cases hsame : slot' = slot
    · subst hsame
      rw [if_pos rfl] at hkept
      exact .inl ⟨r, value, List.mem_cons_self, hslot, hkept⟩
    · rw [if_neg hsame] at hkept
      refine .inr ⟨fun r' value' hmem hr' => ?_, hkept⟩
      rcases List.mem_cons.mp hmem with heq | hlater
      · cases heq
        exact hsame (Option.some.inj (hr'.symm.trans hslot))
      · exact hother r' value' hlater hr'

end RegisterFile

namespace RestoringWalker

variable (file : RegisterFile arch) (info : ProcInfo) (writes : List ContextWrite)

theorem register?_contextOf {r : Nat} :
    ((contextOf file info).register? r).isSome ↔
      r < 64 ∧ ∃ slot, arch.slot r = some slot ∧ slot.registerClass = .integer := by
  simp only [Context.register?, contextOf, Vector.getElem?_ofFn]
  by_cases hr : r < 64
  · rw [dif_pos hr, Option.bind_some, and_iff_right hr]
    cases hget : file.get r with
    | error error =>
      refine iff_of_false Bool.false_ne_true ?_
      rintro ⟨slot, hslot, hclass⟩
      have hvalue := RegisterFile.get_eq_ok.mpr
        ⟨slot, hslot, hclass, RegisterFile.content_getD file hslot hclass⟩
      cases hget.symm.trans hvalue
    | ok value =>
      obtain ⟨slot, hslot, hclass, -⟩ := RegisterFile.get_eq_ok.mp hget
      exact iff_of_true rfl ⟨slot, hslot, hclass⟩
  · rw [dif_neg hr]
    exact iff_of_false Bool.false_ne_true fun h => hr h.1

theorem writtenRegisters_contextOf : (contextOf file info).writtenRegisters = [] := by
  refine List.eq_nil_iff_forall_not_mem.mpr ?_
  rintro ⟨r, value⟩ hmem
  rw [mem_writtenRegisters, contextOf, Vector.getElem?_ofFn] at hmem
  split at hmem
  · rw [Option.some.injEq] at hmem
    split at hmem <;> cases hmem
  · cases hmem

theorem foldlM_writtenRegisters :
    ∃ file', (applyAll (contextOf file info) writes).writtenRegisters.foldlM
        (fun file (r, value) => file.set r value) file = .ok file' ∧
      ∀ slot, file'.content slot =
        (lastValue arch slot writes).elim (file.content slot) .word := by
  have hwritten : ∀ r value,
      (r, value) ∈ (applyAll (contextOf file info) writes).writtenRegisters ↔
        (r < 64 ∧ ∃ slot, arch.slot r = some slot ∧ slot.registerClass = .integer) ∧
          lastRegister r writes = some value := by
    intro r value
    rw [mem_writtenRegisters_applyAll (writtenRegisters_contextOf file info), register?_contextOf]
  obtain ⟨file', hfile', hslots⟩ := RegisterFile.foldlM_set
    (fun r value hmem => ((hwritten r value).mp hmem).1.2) file
  refine ⟨file', hfile', fun slot => ?_⟩
  rcases hslots slot with ⟨r, value, hmem, hr, hvalue⟩ | ⟨hother, hkept⟩
  · obtain ⟨⟨hlt, slot', hr', hclass⟩, hlast⟩ := (hwritten r value).mp hmem
    cases hr.symm.trans hr'
    rw [lastValue_eq_some.mpr ⟨r, hlt, hr, hclass, hlast⟩, hvalue]
    rfl
  · have hnone : lastValue arch slot writes = none := by
      refine Option.eq_none_iff_forall_ne_some.mpr fun value hvalue => ?_
      obtain ⟨r, hlt, hr, hclass, hlast⟩ := lastValue_eq_some.mp hvalue
      exact hother r value ((hwritten r value).mpr ⟨⟨hlt, slot, hr, hclass⟩, hlast⟩) hr
    rw [hnone, hkept]
    rfl

theorem written_applyAll :
    written file (applyAll (contextOf file info) writes) =
      .ok (file.landed info.argsSize writes) := by
  obtain ⟨set, hset, hcontent⟩ := foldlM_writtenRegisters file info writes
  have hwritten : (applyAll (contextOf file info) writes).ipWritten = (lastIp writes).isSome := by
    rw [applyAll_eq]
    exact Bool.or_false _
  have hargs : (applyAll (contextOf file info) writes).argsSize = info.argsSize := by
    rw [applyAll_eq]
    rfl
  unfold written
  rw [hset, hargs]
  change (if (applyAll (contextOf file info) writes).ipWritten = true then _ else _) = _
  rw [hwritten]
  cases hip : lastIp writes with
  | none => exact congrArg Except.ok (RegisterFile.landed_of_none hcontent info.argsSize hip).symm
  | some address =>
    have haddress : (applyAll (contextOf file info) writes).ip = address := by
      rw [applyAll_eq, hip]
      rfl
    rw [haddress]
    exact congrArg Except.ok (RegisterFile.landed_of_some hcontent info.argsSize hip).symm

/-- The column of the instruction pointer counts only where it was not set by name, and
arguments are taken off the stack only where it was. -/
example :
    let file (writes : List ContextWrite) : RegisterFile .aarch64 :=
      RegisterFile.zero.landed 16 (.register 31 0x700000 :: .register 32 0x7100 :: writes)
    ((file []).ip, (file []).sp) = (0x7100, 0x700000) ∧
      ((file [.ip 0x7200]).ip, (file [.ip 0x7200]).sp) = (0x7200, 0x700010) := by
  decide +kernel

end RestoringWalker

end Unwinding
