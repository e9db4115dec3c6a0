import Unwinding.Memory.Snapshot
import Unwinding.Proofs.Cursor.Reference
import Unwinding.Proofs.Registers.Restored

/-!
# The outermost frame

Nobody called the function of the outermost frame. Its return address is undefined, or is
recovered as zero, and a walk is to end there. Zero has no signature that could be taken
off, but the length of the call is added to it like to any other address, before anyone
asks whether it is zero. Where calls have a length, the walk leaves the outermost frame
for an address near zero, and ends there only because no function is found.
-/

namespace Unwinding

variable {arch : Arch} {program : Program} {space : AddressSpace} {row : Row}
  {old new : RegisterFile arch}

namespace RegisterFile

theorem authenticate_zero (file : RegisterFile arch) (signed : Bool) :
    file.authenticate 0 signed = 0 := by
  cases arch with
  | aarch64 =>
    simp only [authenticate]
    split <;> rfl
  | _ => rfl

end RegisterFile

namespace Row

/-- The return address is undefined, or is recovered as zero. -/
def Outermost (row : Row) (space : AddressSpace) (file : RegisterFile arch) : Prop :=
  row.rule row.returnAddress = .undefined ∨
    ∃ cfa, row.frameAddress space file = .ok cfa ∧ row.ReturnsTo ⟨space, file, cfa⟩ 0

/-- The caller's registers, where the instruction that the caller goes on with is looked
at in a memory of its own. -/
def applyFetching (row : Row) (code space : AddressSpace) (file : RegisterFile arch) :
    Except StepError (RegisterFile arch) := do
  let cfa ← row.frameAddress space file
  let callee : Callee arch := ⟨space, file, cfa⟩
  let new ← (row.restored arch).foldlM (fun new (r, rule) => callee.restore new r rule)
    (file.setSp cfa)
  let target ← row.returnTarget callee
  let new := new.setIp target
  if target = 0 then return new else new.repair code

theorem apply_eq_applyFetching (row : Row) (space : AddressSpace) (file : RegisterFile arch) :
    row.apply space file = row.applyFetching space space file := rfl

/-- A caller at address zero has its registers without a look at an instruction, and so has
every caller on an architecture whose tables leave nothing out. -/
theorem applyFetching_of_apply (happly : row.apply space old = .ok new)
    (unread : new.ip = 0 ∨ arch ≠ .ppc64) (code : AddressSpace) :
    row.applyFetching code space old = .ok new := by
  rw [apply_eq_applyFetching] at happly
  simp only [applyFetching, Outcome.bind_eq_ok] at happly ⊢
  obtain ⟨cfa, hcfa, middle, hmiddle, target, htarget, hnew⟩ := happly
  obtain ⟨hip, -⟩ := RegisterFile.resume_ok hnew
  refine ⟨cfa, hcfa, middle, hmiddle, target, htarget, ?_⟩
  rcases unread with hzero | harch
  · have htarget0 : target = 0 := hip.symm.trans hzero
    rw [if_pos htarget0] at hnew ⊢
    exact hnew
  · rw [RegisterFile.repair_eq_self harch] at hnew ⊢
    exact hnew

theorem Outermost.returnsTo (houter : row.Outermost space old) {cfa : Word}
    (hcfa : row.frameAddress space old = .ok cfa) : row.ReturnsTo ⟨space, old, cfa⟩ 0 := by
  rcases houter with hrule | ⟨cfa', hcfa', hreturns⟩
  · rw [ReturnsTo, hrule, if_neg (fun h => nomatch h)]
    rfl
  · cases hcfa.symm.trans hcfa'
    exact hreturns

/-- The walk goes on behind a call that would have been at address zero. -/
theorem Outermost.ip_eq (houter : row.Outermost space old)
    (happly : row.apply space old = .ok new) : new.ip = arch.callLength := by
  obtain ⟨cfa, hcfa, hrestores⟩ := restores_of_apply happly
  obtain ⟨address, hreturns, hip⟩ := hrestores.ip
  have hzero : address = 0 := returnsTo_unique hreturns (houter.returnsTo hcfa)
  calc new.ip
      = arch.adjustReturnAddress (old.authenticate address row.raSigned) := hip
    _ = arch.adjustReturnAddress 0 := by rw [hzero, old.authenticate_zero]
    _ = arch.callLength := UInt64.zero_add _

end Row

theorem Arch.callLength_eq_zero : arch.callLength = 0 ↔ arch ≠ .sparc64 := by
  cases arch <;> decide

namespace Cursor

variable {cursor : Cursor arch} {frame : Frame}

theorem current_file (cursor : Cursor arch) :
    (current.outcome program cursor).2.file = cursor.file := by
  cases hframe : cursor.frame with
  | none => rw [current_unknown hframe, looked_file]
  | some frame => rw [current_known hframe]

theorem step_of_current (hframe : (current.outcome program cursor).1 = .ok (some frame))
    (happly : frame.row.apply program.space cursor.file = .ok new) :
    step.outcome program cursor =
      (.ok (if new.ip = 0 then .endOfStack else .stepped), ⟨new, frame.info.signalFrame, none⟩) := by
  have hfile : (current.outcome program cursor).2.file = cursor.file := current_file cursor
  simp only [step, Walk.outcome_bind]
  generalize current.outcome program cursor = found at hframe hfile
  obtain ⟨found, looked⟩ := found
  cases hframe
  simp only [Walk.outcome_bind, outcome_read, outcome_get, outcome_attempt, outcome_set]
  rw [hfile, happly]
  rfl

theorem stays_of_no_frame (hknows : cursor.Knows program)
    (hnone : cursor.position.frame program = .ok none) :
    cursor.Stays program (.ok .endOfStack) :=
  At.stays ⟨hknows, rfl⟩ (Position.step_of_no_frame hnone)

end Cursor

open Cursor (current step)

/-- Behind the outermost frame the instruction pointer is zero but for the length of a call,
and no instruction is looked at. A step from that frame reports the end of the stack, and so
does every later one. Where calls have a length the step reports a caller instead, and the
steps after it report the end of the stack if there is no function near address zero. -/
theorem Row.apply_outermost (houter : row.Outermost space old)
    (happly : row.apply space old = .ok new) :
    new.ip = arch.callLength ∧ (new.ip = 0 ↔ arch ≠ .sparc64) ∧
      (∀ code, row.applyFetching code space old = .ok new) ∧
      ∀ (program : Program) (cursor : Cursor arch) (frame : Frame),
        program.space = space → cursor.file = old → frame.row = row →
        (current.outcome program cursor).1 = .ok (some frame) →
        ∃ next : Cursor arch, next.file = new ∧
          step.outcome program cursor =
            (.ok (if arch = .sparc64 then .stepped else .endOfStack), next) ∧
          ((arch = .sparc64 → program.locate arch next.lookupPc = .ok none) →
            next.Stays program (.ok .endOfStack)) := by
  have hip : new.ip = arch.callLength := houter.ip_eq happly
  have hzero : new.ip = 0 ↔ arch ≠ .sparc64 := hip ▸ Arch.callLength_eq_zero
  refine ⟨hip, hzero, fun code => applyFetching_of_apply happly ?_ code, ?_⟩
  · by_cases harch : arch = .ppc64
    · exact .inl (hzero.mpr fun h => nomatch harch.symm.trans h)
    · exact .inr harch
  · rintro program cursor frame rfl rfl rfl hframe
    have hstep := Cursor.step_of_current hframe happly
    refine ⟨⟨new, frame.info.signalFrame, none⟩, rfl, hstep.trans ?_, fun hnowhere => ?_⟩
    · simp only [hzero, ne_eq, ite_not]
    · refine Cursor.stays_of_no_frame (Cursor.knows_of_unlooked rfl) ?_
      by_cases hnew : new.ip = 0
      · exact if_pos hnew
      · have harch : arch = .sparc64 := by
          by_contra harch
          exact hnew (hzero.mpr harch)
        exact (if_neg hnew).trans (hnowhere harch)

namespace Row

/-- The row of a function that nobody called. -/
def uncalled (arch : Arch) : Row :=
  { empty arch.returnAddress with
    cfa := .registerOffset arch.sp 0
    rules := (Vector.replicate capacity .unused).setIfInBounds arch.returnAddress .undefined }

/-- Its entries, where the return address is undefined from the first instruction on. -/
def uncalledMemory (arch : Arch) : Snapshot where
  endian := .little
  regions := [⟨0x100000, [0x14, 0, 0, 0, 0, 0, 0, 0, 1, 0x7a, 0x52, 0, 1, 0x78,
    .ofNat arch.returnAddress, 1, 0, 0x0c, .ofNat arch.sp, 0, 0, 0, 0, 0, 0x1c, 0, 0, 0, 0x1c, 0, 0,
    0, 0, 0x40, 0, 0, 0, 0, 0, 0, 0, 1, 0, 0, 0, 0, 0, 0, 0, 0x07, .ofNat arch.returnAddress, 0, 0, 0,
    0, 0, 0, 0, 0, 0]⟩]

/-- Nothing else is mapped, least of all at address zero. -/
def uncalledProgram (arch : Arch) : Program :=
  .ofObjects (uncalledMemory arch).space
    [⟨0x4000, 0x5000, ⟨none, some (0x100000, 0x3c), none, .unknown⟩⟩]

/-- Registers in the function. -/
def uncalledFile (arch : Arch) : RegisterFile arch :=
  (RegisterFile.zero.setSp 0x7000).setIp 0x4010

def uncalledFrame (arch : Arch) : Frame :=
  ⟨⟨0x4000, 0x4100, none, none, 0, false, .entry 0x100018 .unknown⟩, uncalled arch⟩

theorem apply_outermost_uncalled :
    let file := uncalledFile .ppc64
    let program := uncalledProgram .ppc64
    (uncalled .ppc64).Outermost program.space file ∧
      (uncalled .ppc64).apply program.space file = .ok (file.setIp 0) ∧
      (current.outcome program (.start file)).1 = .ok (some (uncalledFrame .ppc64)) ∧
      (∀ code, (uncalled .ppc64).applyFetching code program.space file = .ok (file.setIp 0)) ∧
      ∃ next : Cursor .ppc64, next.file = file.setIp 0 ∧
        step.outcome program (.start file) = (.ok .endOfStack, next) ∧
        next.Stays program (.ok .endOfStack) := by
  have houter : (uncalled .ppc64).Outermost (uncalledProgram .ppc64).space (uncalledFile .ppc64) :=
    .inl (by decide +kernel)
  have happly : (uncalled .ppc64).apply (uncalledProgram .ppc64).space (uncalledFile .ppc64) =
      .ok ((uncalledFile .ppc64).setIp 0) := by decide +kernel
  have hframe : (current.outcome (uncalledProgram .ppc64) (.start (uncalledFile .ppc64))).1 =
      .ok (some (uncalledFrame .ppc64)) := by decide +kernel
  obtain ⟨-, -, hunread, hwalk⟩ := apply_outermost houter happly
  obtain ⟨next, hfile, hstep, hstays⟩ := hwalk (uncalledProgram .ppc64)
    (.start (uncalledFile .ppc64)) (uncalledFrame .ppc64) rfl rfl rfl hframe
  exact ⟨houter, happly, hframe, hunread, next, hfile, hstep, hstays nofun⟩

/-- Where calls have a length, the function seems to have a caller at address eight. -/
theorem uncalled_has_caller :
    let file := uncalledFile .sparc64
    let program := uncalledProgram .sparc64
    (current.outcome program (.start file)).1 = .ok (some (uncalledFrame .sparc64)) ∧
      (uncalled .sparc64).Outermost program.space file ∧
      (uncalled .sparc64).apply program.space file = .ok (file.setIp 8) ∧
      step.outcome program (.start file) = (.ok .stepped, ⟨file.setIp 8, false, none⟩) :=
  ⟨by decide +kernel, .inl (by decide +kernel), by decide +kernel, by decide +kernel⟩

end Row

end Unwinding
