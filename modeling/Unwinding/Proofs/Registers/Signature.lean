import Unwinding.Memory.Snapshot
import Unwinding.Proofs.Registers.Restored

/-!
# Signed return addresses

A row says in two ways that its return address carries a signature: by a flag, which the
vendor instruction toggles, and by a rule for the pseudo register of the sign state. The
flag counts for the frame of the row. The sign state does not, since it is looked up in the
callee's registers, and what the rule gives is not there yet. It is written to the caller's
registers, where it decides about the next frame, and about all frames after it until one
has a rule of its own.
-/

namespace Unwinding

open Arch (signState)

variable {space : AddressSpace} {row : Row} {old new : RegisterFile .aarch64}
  {callee : Callee .aarch64} {cfa state state' address target : Word}

namespace Row

/-- By the row or by the sign state, there is a signature in the return address. -/
def SignedBy (row : Row) (state : Word) : Prop := row.raSigned = true ∨ state &&& 1 ≠ 0

instance (row : Row) (state : Word) : Decidable (row.SignedBy state) :=
  inferInstanceAs (Decidable (_ ∨ _))

/-- The address without the signature, if there is one. -/
def unsigned (row : Row) (state address : Word) : Word :=
  if row.SignedBy state then address &&& 0xffffffffffff else address

theorem authenticate_eq (row : Row) (file : RegisterFile .aarch64) (address : Word) :
    file.authenticate address row.raSigned = row.unsigned (file.getD signState) address := rfl

theorem unsigned_eq_unsigned : row.unsigned state address = row.unsigned state' address ↔
    (row.SignedBy state ↔ row.SignedBy state') ∨ address &&& 0xffffffffffff = address := by
  unfold unsigned
  by_cases h : row.SignedBy state <;> by_cases h' : row.SignedBy state' <;>
    simp only [h, h', if_true, if_false, iff_true, iff_false, not_true, true_or,
      false_or]
  exact eq_comm

/-- The row takes the caller to the target, if the sign state is this one. -/
def ReturnsUnder (row : Row) (space : AddressSpace) (file : RegisterFile .aarch64)
    (state target : Word) : Prop :=
  ∃ cfa address, row.frameAddress space file = .ok cfa ∧
    row.ReturnsTo ⟨space, file, cfa⟩ address ∧ target = row.unsigned state address

theorem returnsUnder_of_apply (happly : row.apply space old = .ok new) :
    row.ReturnsUnder space old (old.getD signState) new.ip := by
  obtain ⟨cfa, hcfa, hrestores⟩ := restores_of_apply happly
  obtain ⟨address, hreturns, hip⟩ := hrestores.ip
  refine ⟨cfa, address, hcfa, hreturns, ?_⟩
  calc new.ip
      = old.authenticate address row.raSigned + Arch.callLength .aarch64 := hip
    _ = old.authenticate address row.raSigned := UInt64.add_zero _
    _ = row.unsigned (old.getD signState) address := row.authenticate_eq old address

theorem Restores.signState_ruled (hrestores : row.Restores callee new)
    (hrule : row.rule signState ≠ .unused) (hcolumn : row.returnAddress ≠ signState) :
    callee.Gives .integer (.word (new.getD signState)) (row.rule signState) := by
  have hgoverns : row.Governs .aarch64 signState :=
    ⟨by decide, hcolumn.symm, by decide, hrule⟩
  obtain ⟨s, hs, hgives⟩ := hrestores.ruled signState hgoverns
  have hslot : Arch.aarch64.slot signState = some (.integer 32) := by decide
  cases hslot.symm.trans hs
  rw [← new.content_getD hslot rfl]
  exact hgives (new.not_reloaded (by decide) _ _)

theorem Restores.signState_kept (hrestores : row.Restores callee new)
    (hrule : row.rule signState = .unused) :
    new.getD signState = callee.file.getD signState := by
  have hslot : Arch.aarch64.slot signState = some (.integer 32) := by decide
  have hkept : new.content (.integer 32) = callee.file.content (.integer 32) := by
    refine hrestores.kept _ nofun (by decide) ?_ (new.not_reloaded (by decide) _ _)
    intro r hr hs
    exact hr.2.2.2 (Arch.slot_inj hslot hs ▸ hrule)
  rw [new.content_getD hslot rfl, callee.file.content_getD hslot rfl] at hkept
  exact RegisterValue.word.inj hkept

theorem signState_after {rows : List Row} (hquiet : ∀ row ∈ rows, row.rule signState = .unused)
    (hrun : rows.foldlM (fun file row => row.apply space file) old = .ok new) :
    new.getD signState = old.getD signState := by
  induction rows generalizing old with
  | nil =>
    cases hrun
    rfl
  | cons row rows ih =>
    obtain ⟨middle, hstep, hrest⟩ := Outcome.bind_eq_ok.mp hrun
    obtain ⟨hunused, hquiet⟩ := List.forall_mem_cons.mp hquiet
    obtain ⟨cfa, -, hrestores⟩ := restores_of_apply hstep
    exact (ih hquiet hrest).trans (hrestores.signState_kept hunused)

/-- The rule of a row gives a sign state. Where the column of the return address is that of
the sign state, it gives the return address. -/
theorem Restores.exists_signState (hrestores : row.Restores callee new)
    (hrule : row.rule signState ≠ .unused) :
    ∃ state, callee.Gives .integer (.word state) (row.rule signState) ∧
      (row.returnAddress ≠ signState → new.get signState = .ok state) := by
  by_cases hcolumn : row.returnAddress = signState
  · obtain ⟨address, hreturns, -⟩ := hrestores.ip
    rw [ReturnsTo, hcolumn, if_neg hrule] at hreturns
    exact ⟨address, hreturns, fun h => absurd hcolumn h⟩
  · exact ⟨new.getD signState, hrestores.signState_ruled hrule hcolumn, fun _ => rfl⟩

/-- A frame whose row has a rule for the sign state returns under the sign state of the callee.
The one that its own rule gives would take it elsewhere, unless the two agree or the
return address has no bits for a signature. It decides about the next frame outside, and
about those after it while they have no rule for it. -/
theorem apply_signed (hrule : row.rule signState ≠ .unused)
    (happly : row.apply space old = .ok new) :
    ∃ cfa state address, row.frameAddress space old = .ok cfa ∧
      Callee.Gives ⟨space, old, cfa⟩ .integer (.word state) (row.rule signState) ∧
      row.ReturnsTo ⟨space, old, cfa⟩ address ∧
      new.ip = row.unsigned (old.getD signState) address ∧
      (new.ip = row.unsigned state address ↔
        (row.SignedBy (old.getD signState) ↔ row.SignedBy state) ∨
          address &&& 0xffffffffffff = address) ∧
      (row.returnAddress ≠ signState → new.get signState = .ok state ∧
        ∀ (rows : List Row) (outer : Row) (last final : RegisterFile .aarch64),
          (∀ row ∈ rows, row.rule signState = .unused) →
          rows.foldlM (fun file row => row.apply space file) new = .ok last →
          outer.apply space last = .ok final →
          outer.ReturnsUnder space last state final.ip) := by
  obtain ⟨cfa, hcfa, hrestores⟩ := restores_of_apply happly
  obtain ⟨state, hgives, hstate⟩ := hrestores.exists_signState hrule
  obtain ⟨cfa', address, hcfa', hreturns, hip⟩ := returnsUnder_of_apply happly
  cases hcfa.symm.trans hcfa'
  refine ⟨cfa, state, address, hcfa, hgives, hreturns, hip, ?_, fun hcolumn => ?_⟩
  · rw [hip]
    exact unsigned_eq_unsigned
  · refine ⟨hstate hcolumn, fun rows outer last final hquiet hrun hlast => ?_⟩
    have hnew : new.getD signState = state := by
      rw [RegisterFile.getD, hstate hcolumn]
      rfl
    have hsame : last.getD signState = state := (signState_after hquiet hrun).trans hnew
    exact hsame ▸ returnsUnder_of_apply hlast

/-- A row with a rule for the sign state. -/
def signing (offset : Int64) : Row :=
  { empty 30 with
    cfa := .registerOffset 31 0
    rules := (Vector.replicate capacity .unused).set 34 (.offsetFromCfa offset) }

/-- Registers with bits above the return address. -/
def signingFile (state : Word) : RegisterFile .aarch64 :=
  ((RegisterFile.zero.setSp 0x7000).update 30 0x2a000000401234).update signState state

def signingSpace : AddressSpace := (Snapshot.mk .little []).space

/-- The caller of a frame with the row, and the one that comes to stand outside of that. -/
def signingCaller : RegisterFile .aarch64 := (signingFile 0x7001).setIp 0x2a000000401234

/-- The signature is left on by the rule of the frame, and taken off outside of it. -/
theorem apply_signed_signing :
    (signing 1).rule signState ≠ .unused ∧
      (signing 1).apply signingSpace (signingFile 0) = .ok signingCaller ∧
      (∃ state address,
        Callee.Gives ⟨signingSpace, signingFile 0, 0x7000⟩ .integer (.word state)
          ((signing 1).rule signState) ∧
        signingCaller.ip = (signing 1).unsigned ((signingFile 0).getD signState) address ∧
        signingCaller.get signState = .ok state ∧
        ∀ final, (signing 0).apply signingSpace signingCaller = .ok final →
          (signing 0).ReturnsUnder signingSpace signingCaller state final.ip) ∧
      (signing 0).apply signingSpace signingCaller = .ok ((signingFile 0x7000).setIp 0x401234) := by
  have hrule : (signing 1).rule signState ≠ .unused := by decide +kernel
  have hcolumn : (signing 1).returnAddress ≠ signState := by decide
  have happly : (signing 1).apply signingSpace (signingFile 0) = .ok signingCaller := by
    decide +kernel
  obtain ⟨cfa, state, address, hcfa, hgives, -, hip, -, houtside⟩ := apply_signed hrule happly
  obtain ⟨hstate, hdecides⟩ := houtside hcolumn
  have hframe : (signing 1).frameAddress signingSpace (signingFile 0) = .ok 0x7000 := by
    decide +kernel
  cases hframe.symm.trans hcfa
  exact ⟨hrule, happly, ⟨state, address, hgives, hip, hstate, fun final hfinal =>
    hdecides [] (signing 0) signingCaller final nofun rfl hfinal⟩, by decide +kernel⟩

/-- A signature stays on although the rule of the frame says that there is one, and bits are
taken off although the rule says that there is none. -/
theorem sign_state_of_callee :
    (∃ new cfa state address,
      (signing 1).apply signingSpace (signingFile 0) = .ok new ∧
      (signing 1).frameAddress signingSpace (signingFile 0) = .ok cfa ∧
      Callee.Gives ⟨signingSpace, signingFile 0, cfa⟩ .integer (.word state)
        ((signing 1).rule signState) ∧
      (signing 1).ReturnsTo ⟨signingSpace, signingFile 0, cfa⟩ address ∧
      (signing 1).SignedBy state ∧ new.ip = 0x2a000000401234 ∧
      (signing 1).unsigned state address = 0x401234) ∧
    ∃ new cfa state address,
      (signing 0).apply signingSpace (signingFile 1) = .ok new ∧
      (signing 0).frameAddress signingSpace (signingFile 1) = .ok cfa ∧
      Callee.Gives ⟨signingSpace, signingFile 1, cfa⟩ .integer (.word state)
        ((signing 0).rule signState) ∧
      (signing 0).ReturnsTo ⟨signingSpace, signingFile 1, cfa⟩ address ∧
      ¬ (signing 0).SignedBy state ∧ new.ip = 0x401234 ∧
      (signing 0).unsigned state address = 0x2a000000401234 := by
  have hrule : ∀ offset, (signing offset).rule signState = .offsetFromCfa offset := fun _ => rfl
  have hcolumn : ∀ offset, (signing offset).rule (signing offset).returnAddress = .unused :=
    fun _ => rfl
  refine ⟨⟨signingCaller, 0x7000, 0x7001, 0x2a000000401234, ?_⟩,
    ⟨(signingFile 0x7000).setIp 0x401234, 0x7000, 0x7000, 0x2a000000401234, ?_⟩⟩
  · refine ⟨by decide +kernel, by decide +kernel, ?_, ?_, by decide +kernel, by decide +kernel,
      by decide +kernel⟩
    · rw [hrule]
      exact ⟨rfl, by decide +kernel⟩
    · rw [ReturnsTo, if_pos (hcolumn 1)]
      decide +kernel
  · refine ⟨by decide +kernel, by decide +kernel, ?_, ?_, by decide +kernel, by decide +kernel,
      by decide +kernel⟩
    · rw [hrule]
      exact ⟨rfl, by decide +kernel⟩
    · rw [ReturnsTo, if_pos (hcolumn 0)]
      decide +kernel

end Row

end Unwinding
