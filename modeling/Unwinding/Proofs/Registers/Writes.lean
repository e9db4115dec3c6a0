import Unwinding.Proofs.Registers.Content

/-!
# Registers that are stored apart

An architecture gives each of its registers a slot of its own, so that a register keeps
what was last written to it, whatever is written to the others in between. Two numbers
never share a slot. What else names the instruction pointer is the column for it, and what
else names the stack pointer is its own column; both are read as they were last written, by
whichever name. A write with a number that has no register of the class is refused, and
leaves everything as it was.
-/

namespace Unwinding

/-! ## Slots in use -/

namespace Arch

/-- How many registers of a class are stored. -/
def stored : Arch → RegisterClass → Nat
  | x86_64, .integer | x86_64, .vector => 16
  | aarch64, .integer | sparc64, .integer => 33
  | ppc64, .integer => 34
  | aarch64, .float | ppc64, .float | ppc64, .vector => 32
  | _, _ => 0

/-- Slots are used from the first one on. Two architectures have a column for the
instruction pointer. -/
def Uses (arch : Arch) : Slot → Prop
  | .integer i => i.val < arch.stored .integer
  | .float i => i.val < arch.stored .float
  | .vector i => i.val < arch.stored .vector
  | .ip => arch = x86_64 ∨ arch = aarch64

instance (arch : Arch) : (s : Slot) → Decidable (arch.Uses s)
  | .integer i => inferInstanceAs (Decidable (i.val < _))
  | .float i => inferInstanceAs (Decidable (i.val < _))
  | .vector i => inferInstanceAs (Decidable (i.val < _))
  | .ip => inferInstanceAs (Decidable (_ ∨ _))

/-- The number of a slot in use leads back to it, and that of another slot does not. -/
theorem slot_number (arch : Arch) (s : Slot) :
    arch.slot (arch.number s) = some s ↔ arch.Uses s := by
  cases arch <;> cases s with
  | integer i => revert i; decide
  | float i => revert i; decide
  | vector i => revert i; decide
  | ip => decide

theorem slot_eq_some {arch : Arch} {r : Register} {s : Slot} :
    arch.slot r = some s ↔ arch.Uses s ∧ arch.number s = r := by
  constructor
  · intro h
    have hnumber := number_slot h
    rw [← hnumber] at h
    exact ⟨(arch.slot_number s).mp h, hnumber⟩
  · rintro ⟨huses, rfl⟩
    exact (arch.slot_number s).mpr huses

theorem slot_fp (arch : Arch) : ∃ i, arch.slot arch.fp = some (.integer i) := by
  cases arch <;> exact ⟨_, rfl⟩

end Arch

/-! ## Writes -/

/-- A call that writes to a register file. -/
inductive RegisterWrite where
  /-- To a register of the class of the value. -/
  | register (r : Register) (value : RegisterValue)
  | ip (address : Word)
  | sp (address : Word)
  deriving Repr, DecidableEq

namespace RegisterWrite

def value : RegisterWrite → RegisterValue
  | register _ value => value
  | ip address | sp address => .word address

/-- What the write changes, by its number. -/
def Reaches (arch : Arch) (write : RegisterWrite) (r : Register) : Prop :=
  match write with
  | register r' value => r' = r ∧ arch.registerClass r = some value.registerClass
  | ip _ => arch.slot r = some .ip
  | sp _ => r = arch.sp

/-- The write changes the instruction pointer, be it as a column. -/
def ReachesIp (arch : Arch) : RegisterWrite → Prop
  | register r value => arch.slot r = some .ip ∧ value.registerClass = .integer
  | ip _ => True
  | sp _ => False

/-- The slot that is changed, if there is one. -/
def slot (arch : Arch) : RegisterWrite → Option Slot
  | register r value => (arch.slot r).filter fun s => s.registerClass = value.registerClass
  | ip _ => some .ip
  | sp _ => arch.slot arch.sp

variable {arch : Arch} {write : RegisterWrite} {r : Register} {s : Slot}

theorem reaches_iff (hs : arch.slot r = some s) :
    write.Reaches arch r ↔ write.slot arch = some s := by
  cases write with
  | register r' value =>
    simp only [Reaches, slot, Arch.registerClass, hs, Option.filter_eq_some_iff, decide_eq_true_eq,
      Option.map_some, Option.some.injEq]
    constructor
    · rintro ⟨rfl, hclass⟩
      exact ⟨hs, hclass⟩
    · rintro ⟨hs', hclass⟩
      exact ⟨Arch.slot_inj hs' hs, hclass⟩
  | ip address =>
    simp only [Reaches, slot, hs, Option.some.injEq]
    exact eq_comm
  | sp address =>
    simp only [Reaches, slot]
    constructor
    · rintro rfl
      exact hs
    · exact fun hs' => Arch.slot_inj hs hs'

theorem Reaches.slot (h : write.Reaches arch r) :
    ∃ s, arch.slot r = some s ∧ s.registerClass = write.value.registerClass := by
  cases write with
  | register r' value => exact Option.map_eq_some_iff.mp h.2
  | ip address => exact ⟨.ip, h, rfl⟩
  | sp address =>
    obtain ⟨i, hi⟩ := Arch.slot_sp arch
    exact ⟨_, h ▸ hi, rfl⟩

theorem reachesIp_iff : write.ReachesIp arch ↔ write.slot arch = some .ip := by
  cases write with
  | register r value =>
    simp only [ReachesIp, slot, Option.filter_eq_some_iff, decide_eq_true_eq]
    exact and_congr_right fun _ => eq_comm
  | ip address => exact iff_of_true trivial rfl
  | sp address =>
    refine iff_of_false id fun h => ?_
    obtain ⟨i, hi⟩ := Arch.slot_sp arch
    cases hi.symm.trans h

end RegisterWrite

namespace RegisterFile

variable {arch : Arch}

def perform (file : RegisterFile arch) :
    RegisterWrite → Except RegisterError (RegisterFile arch)
  | .register r value => file.write r value
  | .ip address => .ok (file.setIp address)
  | .sp address => .ok (file.setSp address)

/-- The file with the write in it. One that is refused leaves the file as it was. -/
def after (file : RegisterFile arch) (write : RegisterWrite) : RegisterFile arch :=
  (file.perform write).toOption.getD file

def afterAll (file : RegisterFile arch) (writes : List RegisterWrite) : RegisterFile arch :=
  writes.foldl after file

variable {file : RegisterFile arch}

theorem after_of_ok {write : RegisterWrite} {file' : RegisterFile arch}
    (h : file.perform write = .ok file') : file.after write = file' := by
  unfold after
  rw [h]
  rfl

theorem after_of_error {write : RegisterWrite} {error : RegisterError}
    (h : file.perform write = .error error) : file.after write = file := by
  unfold after
  rw [h]
  rfl

theorem content_after (file : RegisterFile arch) (write : RegisterWrite) :
    (file.after write).content =
      match write.slot arch with
      | some s => Function.update file.content s write.value
      | none => file.content := by
  cases write with
  | register r value =>
    by_cases hclass : arch.registerClass r = some value.registerClass
    · obtain ⟨file', hwrite⟩ := file.write_accepted.mpr hclass
      obtain ⟨s, hs, hclass, hcontent⟩ := write_eq_ok.mp hwrite
      have hslot : (RegisterWrite.register r value).slot arch = some s := by
        simp only [RegisterWrite.slot, hs, Option.filter_some, hclass, decide_true, if_true]
      have hafter : file.after (.register r value) = file' := after_of_ok hwrite
      rw [hafter, hslot]
      exact hcontent
    · have hslot : (RegisterWrite.register r value).slot arch = none := by
        rw [RegisterWrite.slot, Option.filter_eq_none_iff]
        intro s hs hsame
        refine hclass ?_
        unfold Arch.registerClass
        rw [hs]
        exact congrArg some (of_decide_eq_true hsame)
      have hafter : file.after (.register r value) = file :=
        after_of_error (file.write_refused hclass)
      rw [hafter, hslot]
  | ip address =>
    rw [after_of_ok rfl]
    exact file.content_setIp address
  | sp address =>
    obtain ⟨i, hi⟩ := Arch.slot_sp arch
    have hslot : (RegisterWrite.sp address).slot arch = some (.integer i) := hi
    rw [after_of_ok rfl, hslot]
    exact file.content_update hi rfl address

variable {write : RegisterWrite} {writes before later : List RegisterWrite} {s : Slot}

theorem content_afterAll (h : ∀ write ∈ writes, write.slot arch ≠ some s) :
    (file.afterAll writes).content s = file.content s := by
  induction writes generalizing file with
  | nil => rfl
  | cons write writes ih =>
    have hrest : (file.afterAll (write :: writes)).content s = (file.after write).content s :=
      ih fun write' hmem => h write' (List.mem_cons_of_mem write hmem)
    have hfirst := h write List.mem_cons_self
    rw [hrest, content_after]
    cases hslot : write.slot arch with
    | none => rfl
    | some s' =>
      rw [hslot] at hfirst
      exact Function.update_of_ne (fun hsame => hfirst (congrArg some hsame.symm)) _ _

theorem content_last (hslot : write.slot arch = some s)
    (hlater : ∀ write' ∈ later, write'.slot arch ≠ some s) :
    (file.afterAll (before ++ write :: later)).content s = write.value := by
  have hsplit : file.afterAll (before ++ write :: later) =
      ((file.afterAll before).after write).afterAll later := by
    unfold afterAll
    rw [List.foldl_append, List.foldl_cons]
  rw [hsplit, content_afterAll hlater, content_after, hslot]
  exact Function.update_self _ _ _

end RegisterFile

/-! ## What is read afterwards -/

/-- The registers of an architecture are stored apart from each other. -/
structure Arch.Separates (arch : Arch) : Prop where
  /-- The numbers of registers are those of the slots in use, one for one. -/
  slots : ∀ r s, arch.slot r = some s ↔ arch.Uses s ∧ arch.number s = r
  room : arch.stored .integer ≤ 40 ∧ arch.stored .float ≤ 32 ∧ arch.stored .vector ≤ 32
  apart : ∀ r r' s, arch.slot r = some s → arch.slot r' = some s → r = r'
  stack : ∃ i, arch.slot arch.sp = some (.integer i)
  /-- A write is taken just where the number has a register of the class. -/
  accepted : ∀ (file : RegisterFile arch) r value, (∃ file', file.write r value = .ok file') ↔
    arch.registerClass r = some value.registerClass
  refused : ∀ (file : RegisterFile arch) r value,
    arch.registerClass r ≠ some value.registerClass →
      file.write r value = .error ⟨r, value.registerClass, arch⟩ ∧
        file.after (.register r value) = file
  /-- A register is read as it was last written, -/
  last : ∀ (file : RegisterFile arch) before (write : RegisterWrite) later r,
    write.Reaches arch r → (∀ write' ∈ later, ¬ RegisterWrite.Reaches arch write' r) →
      (file.afterAll (before ++ write :: later)).read r write.value.registerClass =
        .ok write.value
  /-- and as before, with whichever getter, if no write has reached it. -/
  kept : ∀ (file : RegisterFile arch) writes r c,
    (∀ write ∈ writes, ¬ RegisterWrite.Reaches arch write r) →
      (file.afterAll writes).read r c = file.read r c
  lastIp : ∀ (file : RegisterFile arch) before (write : RegisterWrite) later,
    write.ReachesIp arch → (∀ write' ∈ later, ¬ RegisterWrite.ReachesIp arch write') →
      RegisterValue.word (file.afterAll (before ++ write :: later)).ip = write.value
  keptIp : ∀ (file : RegisterFile arch) writes,
    (∀ write ∈ writes, ¬ RegisterWrite.ReachesIp arch write) →
      (file.afterAll writes).ip = file.ip
  /-- The pointers of the stack are two of the registers. -/
  pointers : ∀ file : RegisterFile arch, file.read arch.sp .integer = .ok (.word file.sp) ∧
    file.read arch.fp .integer = .ok (.word file.fp)

namespace RegisterFile

variable {arch : Arch} {file file' : RegisterFile arch} {r : Register}

theorem read_congr {c : RegisterClass}
    (h : ∀ s, arch.slot r = some s → file'.content s = file.content s) :
    file'.read r c = file.read r c := by
  rw [read_eq, read_eq]
  cases hs : arch.slot r with
  | none => rfl
  | some s =>
    dsimp only
    rw [h s hs]

end RegisterFile

theorem Arch.separates (arch : Arch) : arch.Separates where
  slots _ _ := slot_eq_some
  room := by cases arch <;> decide
  apart _ _ _ := slot_inj
  stack := slot_sp arch
  accepted file _ _ := file.write_accepted
  refused file r value h :=
    ⟨file.write_refused h, RegisterFile.after_of_error (file.write_refused h)⟩
  last file before write later r hreaches hlater := by
    obtain ⟨s, hs, hclass⟩ := hreaches.slot
    refine RegisterFile.read_eq_ok.mpr ⟨s, hs, hclass, ?_⟩
    refine RegisterFile.content_last ((RegisterWrite.reaches_iff hs).mp hreaches) ?_
    exact fun write' hmem hslot => hlater write' hmem ((RegisterWrite.reaches_iff hs).mpr hslot)
  kept file writes r c h := by
    refine RegisterFile.read_congr fun s hs => RegisterFile.content_afterAll ?_
    exact fun write hmem hslot => h write hmem ((RegisterWrite.reaches_iff hs).mpr hslot)
  lastIp file before write later hreaches hlater := by
    rw [← RegisterFile.ip_eq]
    refine RegisterFile.content_last (RegisterWrite.reachesIp_iff.mp hreaches) ?_
    exact fun write' hmem hslot => hlater write' hmem (RegisterWrite.reachesIp_iff.mpr hslot)
  keptIp file writes h := by
    have hkept : (file.afterAll writes).content .ip = file.content .ip :=
      RegisterFile.content_afterAll fun write hmem hslot =>
        h write hmem (RegisterWrite.reachesIp_iff.mpr hslot)
    exact RegisterValue.word.inj hkept
  pointers file := by
    obtain ⟨i, hi⟩ := slot_sp arch
    obtain ⟨j, hj⟩ := slot_fp arch
    exact ⟨RegisterFile.read_eq_ok.mpr ⟨_, hi, rfl, RegisterFile.content_getD file hi rfl⟩,
      RegisterFile.read_eq_ok.mpr ⟨_, hj, rfl, RegisterFile.content_getD file hj rfl⟩⟩

/-- The column for the instruction pointer is read as the address set last. -/
theorem Arch.separates_column :
    Separates .x86_64 ∧
      (RegisterFile.afterAll .zero
        [.register 16 (.word 0x4000), .ip 0x5000, .register 17 (.word 1), .sp 0x7000] :
          RegisterFile .x86_64).read 16 .integer = .ok (.word 0x5000) := by
  have hseparates := separates .x86_64
  have hlater : ∀ write' ∈ [RegisterWrite.register 17 (.word 1), .sp 0x7000],
      ¬ RegisterWrite.Reaches .x86_64 write' 16 := by
    simp [RegisterWrite.Reaches, sp]
  exact ⟨hseparates,
    hseparates.last .zero [.register 16 (.word 0x4000)] (.ip 0x5000) _ 16 rfl hlater⟩

end Unwinding
