import Mathlib.Logic.Function.Basic
import Unwinding.Proofs.Outcome

/-!
# What the slots of a register file hold

A register file has one reader and one writer for each class of register.
Seen through the contents of its slots it is a single map, and each writer
changes that map at one slot. Two files with the same contents are equal, so
it is enough to follow the map.
-/

namespace Unwinding

/-- The bits of a register of some class. -/
inductive RegisterValue where
  | word (value : Word)
  | float (bits : UInt64)
  | vector (bits : BitVec 128)
  deriving Repr, DecidableEq

def RegisterValue.registerClass : RegisterValue → RegisterClass
  | word _ => .integer
  | float _ => .float
  | vector _ => .vector

/-- The register with all bits clear. -/
def RegisterClass.zero : RegisterClass → RegisterValue
  | integer => .word 0
  | float => .float 0
  | vector => .vector 0

namespace RegisterFile

variable {arch : Arch}

/-- What a slot holds. -/
def content (file : RegisterFile arch) : Slot → RegisterValue
  | .integer i => .word (file.integers.get i)
  | .float i => .float (file.floats.get i)
  | .vector i => .vector (file.vectors.get i)
  | .ip => .word file.ip

theorem get_eq_getElem {α : Type} {n : Nat} (xs : Vector α n) (i : Fin n) : xs.get i = xs[i] := rfl

theorem content_inj {file file' : RegisterFile arch} :
    file.content = file'.content ↔ file = file' := by
  constructor
  · intro h
    obtain ⟨integers, floats, vectors, ip⟩ := file
    obtain ⟨integers', floats', vectors', ip'⟩ := file'
    have hi : integers = integers' := by
      apply Vector.ext
      intro i hi
      simpa [content, get_eq_getElem] using congrFun h (.integer ⟨i, hi⟩)
    have hf : floats = floats' := by
      apply Vector.ext
      intro i hi
      simpa [content, get_eq_getElem] using congrFun h (.float ⟨i, hi⟩)
    have hv : vectors = vectors' := by
      apply Vector.ext
      intro i hi
      simpa [content, get_eq_getElem] using congrFun h (.vector ⟨i, hi⟩)
    have hp : ip = ip' := by simpa [content] using congrFun h .ip
    rw [hi, hf, hv, hp]
  · rintro rfl
    rfl

section Stores

variable (file : RegisterFile arch)

theorem get_set {α : Type} {n : Nat} (xs : Vector α n) (i : Fin n) (x : α) (j : Fin n) :
    (xs.set i x).get j = if j = i then x else xs.get j := by
  rw [get_eq_getElem, Fin.getElem_fin, Vector.getElem_set, get_eq_getElem, Fin.getElem_fin]
  by_cases h : j = i
  · rw [if_pos h, if_pos (congrArg Fin.val h.symm)]
  · rw [if_neg h, if_neg (Fin.val_ne_of_ne (Ne.symm h))]

theorem content_integers {integers : Vector Word 40} {i : Fin 40} {value : Word}
    (h : ∀ j, integers.get j = if j = i then value else file.integers.get j) :
    ({ file with integers } : RegisterFile arch).content =
      Function.update file.content (.integer i) (.word value) := by
  funext s
  rw [Function.update_apply]
  cases s with
  | integer j =>
    simp only [content, h, Slot.integer.injEq]
    split <;> rfl
  | _ => rfl

theorem content_floats {floats : Vector UInt64 32} {i : Fin 32} {bits : UInt64}
    (h : ∀ j, floats.get j = if j = i then bits else file.floats.get j) :
    ({ file with floats } : RegisterFile arch).content =
      Function.update file.content (.float i) (.float bits) := by
  funext s
  rw [Function.update_apply]
  cases s with
  | float j =>
    simp only [content, h, Slot.float.injEq]
    split <;> rfl
  | _ => rfl

theorem content_vectors {vectors : Vector (BitVec 128) 32} {i : Fin 32} {bits : BitVec 128}
    (h : ∀ j, vectors.get j = if j = i then bits else file.vectors.get j) :
    ({ file with vectors } : RegisterFile arch).content =
      Function.update file.content (.vector i) (.vector bits) := by
  funext s
  rw [Function.update_apply]
  cases s with
  | vector j =>
    simp only [content, h, Slot.vector.injEq]
    split <;> rfl
  | _ => rfl

theorem content_setIp (address : Word) :
    (file.setIp address).content = Function.update file.content .ip (.word address) := by
  funext s
  cases s <;> rfl

theorem content_setIp_of_ne {address : Word} {s : Slot} (hs : s ≠ .ip) :
    (file.setIp address).content s = file.content s := by
  rw [content_setIp, Function.update_of_ne hs]

end Stores

/-- The register `r`, which must be of the class. -/
def read (file : RegisterFile arch) (r : Register) :
    RegisterClass → Except RegisterError RegisterValue
  | .integer => (file.get r).map .word
  | .float => (file.getFloat r).map .float
  | .vector => (file.getVector r).map .vector

def write (file : RegisterFile arch) (r : Register) :
    RegisterValue → Except RegisterError (RegisterFile arch)
  | .word value => file.set r value
  | .float bits => file.setFloat r bits
  | .vector bits => file.setVector r bits

theorem read_eq (file : RegisterFile arch) (r : Register) (c : RegisterClass) :
    file.read r c =
      match arch.slot r with
      | some s => if s.registerClass = c then .ok (file.content s) else .error ⟨r, c, arch⟩
      | none => .error ⟨r, c, arch⟩ := by
  cases c <;> simp only [read, get, getFloat, getVector] <;> cases arch.slot r with
  | none => rfl
  | some s => cases s <;> rfl

theorem read_eq_ok {file : RegisterFile arch} {r : Register} {c : RegisterClass}
    {value : RegisterValue} :
    file.read r c = .ok value ↔
      ∃ s, arch.slot r = some s ∧ s.registerClass = c ∧ file.content s = value := by
  cases c <;> simp only [read, get, getFloat, getVector] <;> cases hs : arch.slot r with
  | none => simp [Except.map]
  | some s => cases s <;> simp [Except.map, Slot.registerClass, content, get_eq_getElem]

theorem get_eq_ok {file : RegisterFile arch} {r : Register} {value : Word} :
    file.get r = .ok value ↔
      ∃ s, arch.slot r = some s ∧ s.registerClass = .integer ∧ file.content s = .word value := by
  rw [← read_eq_ok, read]
  simp

theorem write_eq_ok {file file' : RegisterFile arch} {r : Register} {value : RegisterValue} :
    file.write r value = .ok file' ↔
      ∃ s, arch.slot r = some s ∧ s.registerClass = value.registerClass ∧
        file'.content = Function.update file.content s value := by
  cases hs : arch.slot r with
  | none => cases value <;> simp [write, set, setFloat, setVector, hs]
  | some s =>
    cases value with
    | word value =>
      cases s with
      | integer i =>
        have hc := file.content_integers (get_set file.integers i value)
        simp [write, set, hs, Slot.registerClass, RegisterValue.registerClass, ← hc, content_inj,
          eq_comm]
      | ip =>
        have hc := file.content_setIp value
        simp [write, set, hs, Slot.registerClass, RegisterValue.registerClass, ← hc, content_inj,
          eq_comm, setIp]
      | _ => simp [write, set, hs, Slot.registerClass, RegisterValue.registerClass]
    | float bits =>
      cases s with
      | float i =>
        have hc := file.content_floats (get_set file.floats i bits)
        simp [write, setFloat, hs, Slot.registerClass, RegisterValue.registerClass, ← hc,
          content_inj, eq_comm]
      | _ => simp [write, setFloat, hs, Slot.registerClass, RegisterValue.registerClass]
    | vector bits =>
      cases s with
      | vector i =>
        have hc := file.content_vectors (get_set file.vectors i bits)
        simp [write, setVector, hs, Slot.registerClass, RegisterValue.registerClass, ← hc,
          content_inj, eq_comm]
      | _ => simp [write, setVector, hs, Slot.registerClass, RegisterValue.registerClass]

theorem write_exists (file : RegisterFile arch) (value : RegisterValue) {r : Register} {s : Slot}
    (hs : arch.slot r = some s) (hc : s.registerClass = value.registerClass) :
    ∃ file', file.write r value = .ok file' := by
  cases value <;> cases s <;> simp only [Slot.registerClass, RegisterValue.registerClass,
    reduceCtorEq] at hc <;>
    simp only [write, set, setFloat, setVector, hs, Except.ok.injEq, exists_eq']

theorem write_accepted (file : RegisterFile arch) {r : Register} {value : RegisterValue} :
    (∃ file', file.write r value = .ok file') ↔ arch.registerClass r = some value.registerClass := by
  unfold Arch.registerClass
  rw [Option.map_eq_some_iff]
  constructor
  · rintro ⟨file', h⟩
    obtain ⟨s, hs, hclass, -⟩ := write_eq_ok.mp h
    exact ⟨s, hs, hclass⟩
  · rintro ⟨s, hs, hclass⟩
    exact file.write_exists value hs hclass

theorem write_refused (file : RegisterFile arch) {r : Register} {value : RegisterValue}
    (h : arch.registerClass r ≠ some value.registerClass) :
    file.write r value = .error ⟨r, value.registerClass, arch⟩ := by
  unfold Arch.registerClass at h
  cases hs : arch.slot r with
  | none => cases value <;> simp only [write, set, setFloat, setVector, hs] <;> rfl
  | some s =>
    rw [hs] at h
    cases value <;> cases s <;> first
      | exact absurd rfl h
      | simp only [write, set, setFloat, setVector, hs] <;> rfl

theorem content_update (file : RegisterFile arch) {r : Register} {s : Slot}
    (hs : arch.slot r = some s) (hc : s.registerClass = .integer) (value : Word) :
    (file.update r value).content = Function.update file.content s (.word value) := by
  obtain ⟨file', h⟩ := file.write_exists (.word value) hs hc
  have hu : file.update r value = file' := by
    rw [update, ← write, h]
    rfl
  obtain ⟨s', hs', -, h'⟩ := write_eq_ok.mp h
  rw [hs] at hs'
  cases hs'
  rw [hu, h']

theorem content_getD (file : RegisterFile arch) {r : Register} {s : Slot}
    (hs : arch.slot r = some s) (hc : s.registerClass = .integer) :
    file.content s = .word (file.getD r) := by
  unfold getD get
  cases s <;> simp only [Slot.registerClass, reduceCtorEq] at hc <;> rw [hs] <;> rfl

theorem ip_eq (file : RegisterFile arch) : file.content .ip = .word file.ip := rfl

theorem sp_eq {file : RegisterFile arch} {s : Slot} (hs : arch.slot arch.sp = some s) :
    file.content s = .word file.sp := by
  obtain ⟨i, hi⟩ := Arch.slot_sp arch
  rw [hs] at hi
  cases hi
  exact content_getD file hs rfl

theorem sp_congr {file file' : RegisterFile arch}
    (h : ∀ s, arch.slot arch.sp = some s → file.content s = file'.content s) :
    file.sp = file'.sp := by
  obtain ⟨i, hi⟩ := Arch.slot_sp arch
  have hc := h _ hi
  rw [sp_eq hi, sp_eq hi] at hc
  exact RegisterValue.word.inj hc

theorem sp_slot_ne_ip {s : Slot} (hs : arch.slot arch.sp = some s) : s ≠ .ip := by
  obtain ⟨i, hi⟩ := Arch.slot_sp arch
  rw [hs] at hi
  cases hi
  exact fun h => nomatch h

end RegisterFile

end Unwinding
