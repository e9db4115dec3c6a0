import Unwinding.Compact.Decode
import Unwinding.Compact.Index
import Unwinding.Proofs.CallFrame.Rules

/-!
# What is found in the compact index

The function that is found holds the address it was found for, whatever the index
holds: the page and the function are both compared with its offset from the image.
The entry covers the address, too, unless the function reaches to the end of the
address space: then its end is no address, and the entry has what is left of it. The
rules that an encoding stands for are never those of a frame that a signal entered,
since no encoding can say so.
-/

namespace Unwinding

namespace Row

variable {row row' : Row}

theorem signalFrame_setRules {rules : List (Register × Rule)} (h : row.setRules rules = .ok row') :
    row'.signalFrame = row.signalFrame := by
  obtain ⟨_, rfl⟩ := setRules_rest h
  rfl

end Row

namespace Compact.X64

variable {space : AddressSpace} {encoding : CompactEncoding} {start : Word} {row : Row}

theorem signalFrame_frame (h : frame encoding = .ok row) : row.signalFrame = false := by
  unfold frame at h
  obtain ⟨places, -, h⟩ := Outcome.bind_eq_ok.mp h
  exact Row.signalFrame_setRules (Outcome.mapError_eq_ok.mp h)

theorem signalFrame_constantSize {size : Int64} (h : constantSize encoding size = .ok row) :
    row.signalFrame = false := by
  unfold constantSize at h
  obtain ⟨saves, -, h⟩ := Outcome.bind_eq_ok.mp h
  exact Row.signalFrame_setRules (Outcome.mapError_eq_ok.mp h)

theorem signalFrame_decode (h : decode space encoding start = .ok (.row row)) :
    row.signalFrame = false := by
  unfold decode at h
  split at h
  · cases h
  · obtain ⟨row', hrow, h⟩ := Outcome.bind_eq_ok.mp h
    cases h
    exact signalFrame_frame hrow
  · obtain ⟨row', hrow, h⟩ := Outcome.bind_eq_ok.mp h
    cases h
    exact signalFrame_constantSize hrow
  · obtain ⟨size, -, h⟩ := Outcome.bind_eq_ok.mp h
    obtain ⟨row', hrow, h⟩ := Outcome.bind_eq_ok.mp h
    cases h
    exact signalFrame_constantSize hrow
  · cases h
  · cases h

end Compact.X64

namespace Compact.Arm64

variable {encoding : CompactEncoding} {row : Row}

theorem signalFrame_leaf (h : leaf encoding = .ok row) : row.signalFrame = false :=
  Row.signalFrame_setRules (Outcome.mapError_eq_ok.mp h)

theorem signalFrame_frame (h : frame encoding = .ok row) : row.signalFrame = false :=
  Row.signalFrame_setRules (Outcome.mapError_eq_ok.mp h)

theorem signalFrame_decode (h : decode encoding = .ok (.row row)) : row.signalFrame = false := by
  unfold decode at h
  split at h
  · cases h
  · obtain ⟨row', hrow, h⟩ := Outcome.bind_eq_ok.mp h
    cases h
    exact signalFrame_leaf hrow
  · cases h
  · obtain ⟨row', hrow, h⟩ := Outcome.bind_eq_ok.mp h
    cases h
    exact signalFrame_frame hrow
  · cases h

end Compact.Arm64

theorem CompactEncoding.signalFrame_decode {arch : Arch} {space : AddressSpace}
    {encoding : CompactEncoding} {start : Word} {row : Row}
    (h : encoding.decode arch space start = .ok (.row row)) : row.signalFrame = false := by
  cases arch with
  | x86_64 => exact Compact.X64.signalFrame_decode h
  | aarch64 => exact Compact.Arm64.signalFrame_decode h
  | ppc64 => cases h
  | sparc64 => cases h

namespace CompactIndex

variable {index : CompactIndex} {space : AddressSpace} {header : Header} {pc : Word}
  {entry : CompactEntry}

theorem lookup_eq_ok {target : UInt32} (h : index.lookup space header target = .ok (some entry)) :
    ∃ function : Function, function.first ≤ target ∧ target < function.stop ∧
      entry.startIp = index.imageBase + function.first.toUInt64 ∧
      entry.endIp = index.imageBase + function.stop.toUInt64 := by
  unfold lookup at h
  obtain ⟨place, -, h⟩ := Outcome.bind_eq_ok.mp h
  cases place with
  | none => cases h
  | some n =>
    obtain ⟨current, -, h⟩ := Outcome.bind_eq_ok.mp h
    obtain ⟨next, -, h⟩ := Outcome.bind_eq_ok.mp h
    by_cases hbehind : next.functionOffset ≤ target
    · rw [if_pos hbehind] at h
      cases h
    · rw [if_neg hbehind] at h
      obtain ⟨described, -, h⟩ := Outcome.bind_eq_ok.mp h
      cases described with
      | none => cases h
      | some function =>
        by_cases houtside : target < function.first ∨ function.stop ≤ target
        · replace h := (if_pos houtside).symm.trans h
          cases h
        · replace h := (if_neg houtside).symm.trans h
          rw [not_or] at houtside
          have hfirst := UInt32.not_lt.mp houtside.1
          have hstop := UInt32.not_le.mp houtside.2
          refine ⟨function, hfirst, hstop, ?_⟩
          dsimp only at h
          split at h
          all_goals
            obtain ⟨lsda, -, h⟩ := Outcome.bind_eq_ok.mp h
            obtain ⟨personality, -, h⟩ := Outcome.bind_eq_ok.mp h
            cases h
            exact ⟨rfl, rfl⟩

theorem target_eq_some {target : UInt32} (h : index.target pc = some target) :
    index.imageBase ≤ pc ∧ pc.toNat = index.imageBase.toNat + target.toNat := by
  unfold CompactIndex.target at h
  split at h
  · rename_i hreach
    obtain ⟨hbase, hsize⟩ := hreach
    refine ⟨hbase, ?_⟩
    have htarget : target.toNat = pc.toNat - index.imageBase.toNat := by
      rw [← Option.some.inj h]
      exact Nat.mod_eq_of_lt hsize
    rw [UInt64.le_iff_toNat_le] at hbase
    omega
  · cases h

theorem find_eq_ok (h : index.find space pc = .ok (some entry)) :
    ∃ header target, index.header space = .ok header ∧ index.target pc = some target ∧
      index.lookup space header target = .ok (some entry) := by
  unfold find at h
  obtain ⟨header, hheader, h⟩ := Outcome.bind_eq_ok.mp h
  cases htarget : index.target pc with
  | none =>
    rw [htarget] at h
    cases h
  | some target =>
    rw [htarget] at h
    refine ⟨header, target, hheader, rfl, ?_⟩
    by_cases hpages : header.pageCount < 2
    · replace h := (if_pos hpages).symm.trans h
      cases h
    · exact (if_neg hpages).symm.trans h

/-- The function of an entry begins at or before the address that the entry was found
for, and ends behind it. The end that the entry names is behind the address only if it
is an address. -/
theorem holds_of_find (h : index.find space pc = .ok (some entry)) :
    entry.startIp ≤ pc ∧ ∃ stop : UInt32, entry.endIp = index.imageBase + stop.toUInt64 ∧
      pc.toNat < index.imageBase.toNat + stop.toNat ∧
      (pc < entry.endIp ↔ index.imageBase.toNat + stop.toNat < UInt64.size) ∧
      (entry.endIp < entry.startIp ↔ UInt64.size ≤ index.imageBase.toNat + stop.toNat) := by
  obtain ⟨header, target, -, htarget, hlookup⟩ := find_eq_ok h
  obtain ⟨function, hfirst, hstop, hstart, hend⟩ := lookup_eq_ok hlookup
  obtain ⟨hbase, hpc⟩ := target_eq_some htarget
  rw [UInt32.le_iff_toNat_le] at hfirst
  rw [UInt32.lt_iff_toNat_lt] at hstop
  have hpcBound := UInt64.toNat_lt pc
  have hstopBound := UInt32.toNat_lt function.stop
  have hstartNat : entry.startIp.toNat = index.imageBase.toNat + function.first.toNat := by
    rw [hstart, UInt64.toNat_add, UInt32.toNat_toUInt64]
    exact Nat.mod_eq_of_lt (by omega)
  have hendNat : entry.endIp.toNat =
      (index.imageBase.toNat + function.stop.toNat) % UInt64.size := by
    rw [hend, UInt64.toNat_add, UInt32.toNat_toUInt64]
  rw [UInt64.le_iff_toNat_le, hstartNat]
  refine ⟨by omega, function.stop, hend, by omega, ?_, ?_⟩
  · rw [UInt64.lt_iff_toNat_lt, hendNat]
    simp only [UInt64.size]
    omega
  · rw [UInt64.lt_iff_toNat_lt, hendNat, hstartNat]
    simp only [UInt64.size]
    omega

/-- An entry covers the address it was found for, unless its end was cut off. -/
theorem covers_iff_of_find (h : index.find space pc = .ok (some entry)) :
    (entry.startIp ≤ pc ∧ pc < entry.endIp) ↔ ¬ entry.endIp < entry.startIp := by
  obtain ⟨hstart, stop, -, -, hbefore, hcut⟩ := holds_of_find h
  rw [hbefore, hcut, Nat.not_le]
  exact and_iff_right hstart

end CompactIndex

end Unwinding
