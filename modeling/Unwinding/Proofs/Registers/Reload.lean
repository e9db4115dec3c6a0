import Unwinding.Proofs.Registers.Content

/-!
# The register that tables leave out

Where a call went through a stub, the caller's next instruction loads its
table pointer again. This is the one register that the caller finds changed
without a rule, and its stack pointer is not touched by it.
-/

namespace Unwinding

variable {arch : Arch}

namespace RegisterFile

/-- The caller goes on with the instruction that loads its table pointer, from
this offset to its stack pointer. -/
def ReloadsFrom (file : RegisterFile arch) (space : AddressSpace) (offset : Word) : Prop :=
  arch = .ppc64 ∧ file.ip ≠ 0 ∧
    (space.get32 file.ip = .ok 0xe8410018 ∧ offset = 24 ∨
      space.get32 file.ip = .ok 0xe8410028 ∧ offset = 40)

theorem reloadsFrom_congr {file file' : RegisterFile arch} (h : file.ip = file'.ip)
    (space : AddressSpace) (offset : Word) :
    file.ReloadsFrom space offset ↔ file'.ReloadsFrom space offset := by
  rw [ReloadsFrom, ReloadsFrom, h]

theorem reloadsFrom_unique {file : RegisterFile arch} {space : AddressSpace} {offset offset' : Word}
    (h : file.ReloadsFrom space offset) (h' : file.ReloadsFrom space offset') :
    offset = offset' := by
  obtain ⟨-, -, ⟨hw, rfl⟩ | ⟨hw, rfl⟩⟩ := h <;> obtain ⟨-, -, ⟨hw', rfl⟩ | ⟨hw', rfl⟩⟩ := h' <;>
    first
    | rfl
    | rw [hw] at hw'
      cases hw'

/-- The slot of a table pointer that the caller loads again. -/
def Reloaded (file : RegisterFile arch) (space : AddressSpace) (s : Slot) : Prop :=
  arch.slot 2 = some s ∧ ∃ offset, file.ReloadsFrom space offset

theorem reloaded_congr {file file' : RegisterFile arch} (h : file.ip = file'.ip)
    (space : AddressSpace) (s : Slot) : file.Reloaded space s ↔ file'.Reloaded space s := by
  simp only [Reloaded, reloadsFrom_congr h]

theorem reloadOffset_eq_some {word : UInt32} {offset : Word} :
    reloadOffset word = some offset ↔
      word = 0xe8410018 ∧ offset = 24 ∨ word = 0xe8410028 ∧ offset = 40 := by
  unfold reloadOffset
  split
  · simp [eq_comm]
  · simp [eq_comm]
  · simp_all

theorem repair_ok {file new : RegisterFile arch} {space : AddressSpace} (hip : file.ip ≠ 0)
    (h : file.repair space = .ok new) :
    (∀ offset, ¬ file.ReloadsFrom space offset) ∧ new = file ∨
      ∃ offset table, file.ReloadsFrom space offset ∧
        space.pointer (file.sp + offset) = .ok table ∧ arch.slot 2 = some (.integer 2) ∧
        new.content = Function.update file.content (.integer 2) (.word table) := by
  cases arch with
  | ppc64 =>
    simp only [repair, Outcome.bind_eq_ok] at h
    obtain ⟨word, hw, h⟩ := h
    cases ho : reloadOffset word with
    | none =>
      rw [ho] at h
      refine .inl ⟨?_, (Outcome.pure_eq_ok.mp h).symm⟩
      rintro offset ⟨-, -, ⟨hget, -⟩ | ⟨hget, -⟩⟩ <;>
        rw [hw] at hget <;> cases hget <;> simp [reloadOffset] at ho
    | some offset =>
      rw [ho] at h
      simp only [Outcome.bind_eq_ok, Outcome.pure_eq_ok] at h
      obtain ⟨table, ht, rfl⟩ := h
      refine .inr ⟨offset, table, ⟨rfl, hip, ?_⟩, ht, rfl, content_update file rfl rfl table⟩
      simpa [hw] using reloadOffset_eq_some.mp ho
  | _ =>
    simp only [repair, Except.ok.injEq] at h
    refine .inl ⟨?_, h.symm⟩
    rintro offset ⟨harch, -⟩
    cases harch

theorem repair_eq_self (harch : arch ≠ .ppc64) (file : RegisterFile arch) (space : AddressSpace) :
    file.repair space = .ok file := by
  cases arch with
  | ppc64 => exact absurd rfl harch
  | _ => rfl

theorem sp_not_reloaded {file : RegisterFile arch} {space : AddressSpace} {s : Slot}
    (hs : arch.slot arch.sp = some s) : ¬ file.Reloaded space s := by
  rintro ⟨hslot, offset, rfl, -⟩
  exact absurd (Arch.slot_inj hslot hs) (by decide)

theorem not_reloaded (file : RegisterFile arch) (harch : arch ≠ .ppc64) (space : AddressSpace)
    (s : Slot) : ¬ file.Reloaded space s :=
  fun ⟨_, _, hppc, _⟩ => harch hppc

/-- The caller's file, from what the loop over the rules left and the address
at which the caller goes on. -/
theorem resume_ok {middle new : RegisterFile arch} {space : AddressSpace} {target : Word}
    (h : (if target = 0 then pure (middle.setIp target)
      else liftM ((middle.setIp target).repair space) : Except StepError (RegisterFile arch)) =
        .ok new) :
    new.ip = target ∧ (∀ s, s ≠ .ip → ¬ new.Reloaded space s → new.content s = middle.content s) ∧
      ∀ offset, new.ReloadsFrom space offset →
        ∃ table, space.pointer (new.sp + offset) = .ok table ∧ new.get 2 = .ok table := by
  have hset : ∀ s, s ≠ .ip → (middle.setIp target).content s = middle.content s :=
    fun _ => middle.content_setIp_of_ne
  split at h
  · rename_i hz
    rw [Outcome.pure_eq_ok] at h
    subst h
    refine ⟨rfl, fun s hs _ => hset s hs, ?_⟩
    rintro offset ⟨-, hip, -⟩
    exact absurd hz hip
  · rename_i hz
    rw [Outcome.liftM_memory_eq_ok] at h
    rcases repair_ok hz h with ⟨hnone, rfl⟩ | ⟨offset, table, hfrom, htable, hslot, hcontent⟩
    · exact ⟨rfl, fun s hs _ => hset s hs, fun offset ho => absurd ho (hnone offset)⟩
    · have hip : new.ip = target := by
        have hi := congrFun hcontent .ip
        rw [Function.update_of_ne (by simp), ip_eq, ip_eq] at hi
        exact RegisterValue.word.inj hi
      have hfrom' : new.ReloadsFrom space offset := (reloadsFrom_congr hip space offset).mpr hfrom
      have hsame : ∀ s, ¬ new.Reloaded space s →
          new.content s = (middle.setIp target).content s := by
        intro s hs
        have hne : s ≠ .integer 2 := by
          rintro rfl
          exact hs ⟨hslot, offset, hfrom'⟩
        rw [hcontent, Function.update_of_ne hne]
      refine ⟨hip, fun s hs hr => (hsame s hr).trans (hset s hs), ?_⟩
      intro offset' ho
      rw [← reloadsFrom_unique hfrom' ho, sp_congr fun s hs => hsame s (sp_not_reloaded hs)]
      refine ⟨table, htable, get_eq_ok.mpr ⟨.integer 2, hslot, rfl, ?_⟩⟩
      rw [hcontent, Function.update_self]

end RegisterFile

end Unwinding
