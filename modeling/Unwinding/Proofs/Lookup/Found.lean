import Unwinding.Proofs.CallFrame.Decoding
import Unwinding.Sections

/-!
# What is found among the frame entries

Whatever the section and its table hold, a frame entry that is found covers the
address it was looked for, and it is what decodes at its own address.
-/

namespace Unwinding

variable {space : AddressSpace} {bases : Bases} {pc : Word} {entry : FrameEntry}

/-- The entry is in the section and holds the instruction at `pc`. -/
def FrameEntry.FoundFor (entry : FrameEntry) (space : AddressSpace) (bases : Bases) (pc : Word) :
    Prop :=
  entry.covers pc = true ∧ ∃ common, decode space bases entry.address = .ok (entry, common)

theorem FrameEntry.foundFor_of_decode {address : Word} {common : CommonEntry}
    (hdecode : decode space bases address = .ok (entry, common))
    (hcovers : entry.covers pc = true) : entry.FoundFor space bases pc := by
  refine ⟨hcovers, common, ?_⟩
  rw [address_of_decode hdecode]
  exact hdecode

theorem FrameSection.foundFor_of_scanWithin {stop address : Word} {left : Nat}
    (h : scanWithin space bases pc stop left address = .ok (some entry)) :
    entry.FoundFor space bases pc := by
  induction left generalizing address with
  | zero => cases h
  | succ left ih =>
    unfold scanWithin at h
    split at h
    · cases h
    · split at h
      · cases h
      · cases h
      · rename_i head _
        by_cases hid : head.id ≠ 0
        · rw [if_pos hid] at h
          obtain ⟨⟨found, common⟩, hdecode, h⟩ := Outcome.bind_eq_ok.mp h
          by_cases hcovers : found.covers pc = true
          · replace h := (if_pos hcovers).symm.trans h
            cases h
            exact FrameEntry.foundFor_of_decode hdecode hcovers
          · exact ih ((if_neg hcovers).symm.trans h)
        · exact ih ((if_neg hid).symm.trans h)

theorem FrameSection.foundFor_of_scan {start : Word} {length : Option Word}
    (h : scan space bases start length pc = .ok (some entry)) : entry.FoundFor space bases pc :=
  foundFor_of_scanWithin h

theorem LookupTable.foundFor_of_find {table : LookupTable}
    (h : table.find space bases pc = .ok (some entry)) : entry.FoundFor space bases pc := by
  unfold find at h
  obtain ⟨place, -, h⟩ := Outcome.bind_eq_ok.mp h
  cases place with
  | none => cases h
  | some address =>
    obtain ⟨⟨found, common⟩, hdecode, h⟩ := Outcome.bind_eq_ok.mp h
    by_cases hcovers : found.covers pc = true
    · replace h := (if_pos hcovers).symm.trans (Outcome.pure_eq_ok.mp h)
      cases h
      exact FrameEntry.foundFor_of_decode hdecode hcovers
    · replace h := (if_neg hcovers).symm.trans (Outcome.pure_eq_ok.mp h)
      cases h

theorem Program.foundFor_of_findEntry {program : Program} {sections : UnwindSections}
    (h : program.findEntry sections pc = .ok (some entry)) :
    entry.FoundFor program.space sections.bases pc := by
  unfold findEntry at h
  split at h
  · obtain ⟨table, -, h⟩ := Outcome.bind_eq_ok.mp h
    split at h
    · exact FrameSection.foundFor_of_scan h
    · exact LookupTable.foundFor_of_find h
  · exact FrameSection.foundFor_of_scan h
  · cases h

end Unwinding
