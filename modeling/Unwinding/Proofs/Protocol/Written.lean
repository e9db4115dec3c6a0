import Mathlib.Data.List.Induction
import Unwinding.Walker.Registered

/-!
# What is written to a context

A routine writes the instruction pointer and registers of the context it is
handed, as often as it likes. When a registered function is resumed, only the
last value of each write counts, and only the first four registers are there.
-/

namespace Unwinding

/-- A write of a routine to the context that it is handed. -/
inductive ContextWrite where
  | ip (address : Word)
  | register (index : Int) (value : Word)
  deriving Repr, DecidableEq

namespace ContextWrite

def apply (context : Context) : ContextWrite → Context
  | ip address => context.writeIp address
  | register index value => context.overwrite index value

def applyAll (context : Context) (writes : List ContextWrite) : Context :=
  writes.foldl apply context

/-- The address that is written to the instruction pointer, if one is. -/
def ip? : ContextWrite → Option Word
  | ip address => some address
  | register .. => none

/-- The value that is written to register `index`, if one is. -/
def register? (index : Nat) : ContextWrite → Option Word
  | ip _ => none
  | register index' value => if index' = index then some value else none

def lastIp (writes : List ContextWrite) : Option Word := (writes.filterMap ip?).getLast?

def lastRegister (index : Nat) (writes : List ContextWrite) : Option Word :=
  (writes.filterMap (register? index)).getLast?

theorem lastIp_concat (writes : List ContextWrite) (write : ContextWrite) :
    lastIp (writes ++ [write]) = (ip? write).or (lastIp writes) := by
  unfold lastIp
  rw [List.filterMap_append]
  cases h : ip? write <;> simp [h]

theorem lastRegister_concat (index : Nat) (writes : List ContextWrite) (write : ContextWrite) :
    lastRegister index (writes ++ [write]) =
      (register? index write).or (lastRegister index writes) := by
  unfold lastRegister
  rw [List.filterMap_append]
  cases h : register? index write <;> simp [h]

theorem getElem?_writeRegister (context : Context) (index : Nat) (value : Word) (r : Nat) :
    (context.writeRegister index value).2.registers[r]? =
      if r = index then context.registers[r]?.map (·.write value) else context.registers[r]? := by
  unfold Context.writeRegister
  by_cases hr : r = index
  · subst hr
    rw [if_pos rfl]
    cases hreg : context.registers[r]? with
    | none => exact hreg
    | some register =>
      have hlt : r < 64 := (Vector.getElem?_eq_some_iff.mp hreg).1
      cases register with
      | absent => exact hreg
      | kept old => exact Vector.getElem?_setIfInBounds_self_of_lt hlt
      | written old => exact Vector.getElem?_setIfInBounds_self_of_lt hlt
  · rw [if_neg hr]
    split
    · rfl
    · rfl
    · exact Vector.getElem?_setIfInBounds_ne (Ne.symm hr)

theorem overwrite_eq (context : Context) (index : Int) (value : Word) :
    context.overwrite index value =
      { context with registers := (context.overwrite index value).registers } := by
  cases index with
  | ofNat index =>
    rw [Context.overwrite, Context.writeRegister]
    split <;> rfl
  | negSucc index => rfl

theorem getElem?_overwrite (context : Context) (index : Int) (value : Word) (r : Nat) :
    (context.overwrite index value).registers[r]? =
      if index = r then context.registers[r]?.map (·.write value) else context.registers[r]? := by
  cases index with
  | ofNat index =>
    simp only [Context.overwrite, getElem?_writeRegister, Int.ofNat_eq_natCast, Int.natCast_inj,
      eq_comm]
  | negSucc index => exact (if_neg nofun).symm

/-- A register that is there has the value that was written to it last, if one was. -/
theorem registers_applyAll (context : Context) (writes : List ContextWrite) (r : Nat) :
    (applyAll context writes).registers[r]? = context.registers[r]?.map fun register =>
      (lastRegister r writes).elim register (register.write ·) := by
  induction writes using List.reverseRecOn with
  | nil => exact Option.map_id'.symm
  | append_singleton writes write ih =>
    rw [applyAll, List.foldl_append, lastRegister_concat]
    cases write with
    | ip address => exact ih
    | register index value =>
      refine (getElem?_overwrite ..).trans ?_
      rw [← applyAll, ih, register?]
      split
      · cases context.registers[r]? with
        | none => rfl
        | some register => cases register <;> cases lastRegister r writes <;> rfl
      · rfl

theorem applyAll_eq (context : Context) (writes : List ContextWrite) :
    applyAll context writes =
      { context with
        ip := (lastIp writes).getD context.ip
        registers := (applyAll context writes).registers
        ipWritten := (lastIp writes).isSome || context.ipWritten } := by
  induction writes using List.reverseRecOn with
  | nil => rfl
  | append_singleton writes write ih =>
    rw [lastIp_concat, applyAll, List.foldl_append, ← applyAll]
    cases write with
    | ip address => exact congrArg (·.writeIp address) ih
    | register index value =>
      refine (overwrite_eq ..).trans ?_
      exact congrArg (fun old : Context =>
        { old with registers := ((applyAll context writes).overwrite index value).registers }) ih

theorem mem_writtenRegisters {context : Context} {r : Nat} {value : Word} :
    (r, value) ∈ context.writtenRegisters ↔ context.registers[r]? = some (.written value) := by
  simp only [Context.writtenRegisters, List.mem_filterMap, Prod.exists,
    List.mk_mem_zipIdx_iff_getElem?]
  rw [← Vector.getElem?_toList]
  constructor
  · rintro ⟨register, r', hr', h⟩
    split at h
    · cases h
      exact hr'
    · cases h
  · intro h
    exact ⟨_, r, h, rfl⟩

theorem mem_writtenRegisters_applyAll {context : Context} (fresh : context.writtenRegisters = [])
    {writes : List ContextWrite} {r : Nat} {value : Word} :
    (r, value) ∈ (applyAll context writes).writtenRegisters ↔
      (context.register? r).isSome ∧ lastRegister r writes = some value := by
  rw [mem_writtenRegisters, registers_applyAll, Context.register?]
  cases hregister : context.registers[r]? with
  | none => simp
  | some register =>
    have hfresh : ∀ value, register ≠ .written value := by
      rintro value rfl
      have hmem : (r, value) ∈ context.writtenRegisters := mem_writtenRegisters.mpr hregister
      rw [fresh] at hmem
      exact List.not_mem_nil hmem
    cases register with
    | written old => exact absurd rfl (hfresh old)
    | absent | kept old =>
      cases lastRegister r writes <;> simp [ContextRegister.value, ContextRegister.write]

end ContextWrite

/-- The registration that a function is resumed with after these writes. -/
def FunctionContext.resumed (function : FunctionContext) (writes : List ContextWrite) :
    FunctionContext :=
  { function with
    resumeLocation :=
      match ContextWrite.lastIp writes with
      | some ip => (ip - 1).toUInt32
      | none => function.resumeLocation
    parameters := Vector.ofFn fun index =>
      (ContextWrite.lastRegister index writes).getD (function.parameters.get index) }

namespace RegisteredWalker

open ContextWrite

/-- A register of a function's context after some writes. -/
def registerAfter (function : FunctionContext) (writes : List ContextWrite) (index : Nat) :
    ContextRegister :=
  match function.parameters[index]? with
  | none => .absent
  | some value =>
    match lastRegister index writes with
    | none => .kept value
    | some value => .written value

/-- What a function's context shows after some writes. -/
structure Shows (function : FunctionContext) (writes : List ContextWrite) (context : Context) :
    Prop where
  ipWritten : context.ipWritten = (lastIp writes).isSome
  ip : ∀ address, lastIp writes = some address → context.ip = address
  registers : ∀ r, r < 64 → context.registers[r]? = some (registerAfter function writes r)

theorem shows_applyAll (function : FunctionContext) (writes : List ContextWrite) :
    Shows function writes (applyAll (contextOf function) writes) where
  ipWritten := by
    rw [applyAll_eq]
    exact Bool.or_false _
  ip address h := by
    rw [applyAll_eq, h]
    rfl
  registers r hr := by
    simp only [registers_applyAll, contextOf, Vector.getElem?_ofFn, hr, dif_pos, Option.map_some,
      registerAfter]
    cases function.parameters[r]? <;> cases lastRegister r writes <;> rfl

theorem get_foldl_setIfInBounds (written : List (Nat × Word)) (parameters : Vector Word 4)
    (i : Fin 4) :
    (∃ value, (i.val, value) ∈ written ∧
      (written.foldl (fun parameters (r, value) => parameters.setIfInBounds r value)
        parameters).get i = value) ∨
    (∀ value, (i.val, value) ∉ written) ∧
      (written.foldl (fun parameters (r, value) => parameters.setIfInBounds r value)
        parameters).get i = parameters.get i := by
  induction written using List.reverseRecOn with
  | nil => exact .inr ⟨fun _ => List.not_mem_nil, rfl⟩
  | append_singleton written last ih =>
    obtain ⟨r, value⟩ := last
    rw [List.foldl_append]
    by_cases hr : r = i
    · subst hr
      refine .inl ⟨value, by simp, ?_⟩
      exact Vector.getElem_setIfInBounds_self i.isLt
    · have hsame : ∀ parameters : Vector Word 4,
          (parameters.setIfInBounds r value).get i = parameters.get i := fun parameters =>
        Vector.getElem_setIfInBounds_ne i.isLt hr
      have hmem : ∀ value',
          (i.val, value') ∈ written ++ [(r, value)] ↔ (i.val, value') ∈ written := by
        intro value'
        simp [Ne.symm hr]
      simpa only [hmem, List.foldl_cons, List.foldl_nil, hsame] using ih

theorem written_applyAll (function : FunctionContext) (writes : List ContextWrite) :
    written (applyAll (contextOf function) writes) function = function.resumed writes := by
  have h := shows_applyAll function writes
  generalize applyAll (contextOf function) writes = context at h
  have hlocation : (written context function).resumeLocation =
      (function.resumed writes).resumeLocation := by
    simp only [written, FunctionContext.resumed, h.ipWritten]
    cases hlast : lastIp writes with
    | none => rfl
    | some address => rw [h.ip address hlast]; rfl
  have hparameters : (written context function).parameters =
      (function.resumed writes).parameters := by
    refine Vector.ext fun i hi => ?_
    have hregister : ∀ value, (i, value) ∈ context.writtenRegisters ↔
        lastRegister i writes = some value := by
      intro value
      rw [mem_writtenRegisters, h.registers i (by omega), registerAfter,
        Vector.getElem?_eq_getElem hi]
      cases lastRegister i writes <;> simp
    have hresumed : (function.resumed writes).parameters[i] =
        (lastRegister i writes).getD function.parameters[i] := Vector.getElem_ofFn hi
    rw [hresumed]
    rcases get_foldl_setIfInBounds context.writtenRegisters function.parameters ⟨i, hi⟩ with
      ⟨value, hmem, hvalue⟩ | ⟨hmem, hvalue⟩
    · rw [(hregister value).mp hmem]
      exact hvalue
    · have hnone : lastRegister i writes = none :=
        Option.eq_none_iff_forall_ne_some.mpr fun value hlast =>
          hmem value ((hregister value).mpr hlast)
      rw [hnone]
      exact hvalue
  exact congrArg₂ (fun resumeLocation parameters => { function with resumeLocation, parameters })
    hlocation hparameters

end RegisteredWalker

end Unwinding
