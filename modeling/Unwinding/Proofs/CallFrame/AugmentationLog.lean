import Unwinding.Proofs.Reading.Success

/-!
# Operands and the data that declares them

A log says where operands were read, and which bytes had been declared for them. If
they are laid end to end from where the declared bytes begin, then one number decides
whether they are among them, and whether they are apart from what follows: how many
bytes they take.
-/

namespace Unwinding

/-- Says where the bytes were that a decoder has consumed. -/
def Reading.extent {ε α : Type} (read : Reading ε α) : Reading ε (α × Span) := do
  let start ← Reading.pos
  let value ← read
  return (value, ⟨start, ← Reading.pos⟩)

theorem Reading.extent_eq_ok {ε α : Type} {read : Reading ε α} {space : AddressSpace}
    {span span' extent : Span} {a : α} :
    read.extent space span = .ok (a, extent) span' ↔
      read space span = .ok a span' ∧ extent = ⟨span.pos, span'.pos⟩ := by
  simp only [Reading.extent, bind_eq_ok, pos_eq_ok, pure_eq_ok, Prod.mk.injEq]
  constructor
  · rintro ⟨_, _, ⟨rfl, rfl⟩, _, _, hread, _, _, ⟨rfl, rfl⟩, ⟨rfl, rfl⟩, rfl⟩
    exact ⟨hread, rfl⟩
  · rintro ⟨hread, rfl⟩
    exact ⟨_, _, ⟨rfl, rfl⟩, _, _, hread, _, _, ⟨rfl, rfl⟩, ⟨rfl, rfl⟩, rfl⟩

namespace Span

/-- The address is one of those in the span. -/
def Has (span : Span) (address : Word) : Prop := span.pos ≤ address ∧ address < span.limit

def Inside (inner outer : Span) : Prop := outer.pos ≤ inner.pos ∧ inner.limit ≤ outer.limit

instance (span : Span) (address : Word) : Decidable (span.Has address) :=
  inferInstanceAs (Decidable (_ ∧ _))

instance (inner outer : Span) : Decidable (inner.Inside outer) :=
  inferInstanceAs (Decidable (_ ∧ _))

/-- How many bytes some spans have together. -/
def total : List Span → Nat
  | [] => 0
  | span :: spans => span.remaining + total spans

theorem total_snoc (spans : List Span) (last : Span) :
    total (spans ++ [last]) = total spans + last.remaining := by
  induction spans with
  | nil => exact Nat.add_comm _ _
  | cons span spans ih =>
    rw [List.cons_append]
    simp only [total]
    rw [ih, Nat.add_assoc]

/-- Spans that are laid end to end. -/
inductive Tiles (start : Word) : List Span → Word → Prop
  | nil : Tiles start [] start
  | snoc {spans : List Span} {middle stop : Word} : Tiles start spans middle → middle < stop →
      Tiles start (spans ++ [⟨middle, stop⟩]) stop

variable {start stop : Word} {spans : List Span}

theorem Tiles.le (h : Tiles start spans stop) : start ≤ stop := by
  induction h with
  | nil => exact UInt64.le_refl _
  | snoc _ hlt ih => exact UInt64.le_trans ih (UInt64.le_of_lt hlt)

theorem Tiles.total_eq (h : Tiles start spans stop) :
    stop.toNat = start.toNat + total spans := by
  induction h with
  | nil => rfl
  | @snoc _ middle stop _ hlt ih =>
    rw [UInt64.lt_iff_toNat_lt] at hlt
    have hlast : remaining ⟨middle, stop⟩ = stop.toNat - middle.toNat := rfl
    rw [total_snoc, hlast]
    omega

theorem Tiles.bounds (h : Tiles start spans stop) {span : Span} (hmem : span ∈ spans) :
    start ≤ span.pos ∧ span.pos < span.limit ∧ span.limit ≤ stop := by
  induction h with
  | nil => exact absurd hmem List.not_mem_nil
  | snoc hrest hlt ih =>
    rcases List.mem_append.mp hmem with hmem | hmem
    · obtain ⟨hfirst, hmiddle, hlast⟩ := ih hmem
      exact ⟨hfirst, hmiddle, UInt64.le_trans hlast (UInt64.le_of_lt hlt)⟩
    · rw [List.mem_singleton] at hmem
      subst hmem
      exact ⟨hrest.le, hlt, UInt64.le_refl _⟩

theorem Tiles.last (h : Tiles start spans stop) (hne : start ≠ stop) :
    ∃ span ∈ spans, span.pos < span.limit ∧ span.limit = stop := by
  cases h with
  | nil => exact absurd rfl hne
  | snoc _ hlt => exact ⟨_, List.mem_append_right _ List.mem_cons_self, hlt, rfl⟩

end Span

/-- Where operands were read. -/
structure AugmentationLog where
  /-- Those in front of the length of the data. -/
  early : List Span
  /-- The data, as long as its length says. -/
  data : Option Span
  /-- Those behind the length. -/
  late : List Span
  deriving Repr, DecidableEq

namespace AugmentationLog

def operands (log : AugmentationLog) : List Span := log.early ++ log.late

/-- How many bytes are taken for operands from where the data begins. -/
def required (log : AugmentationLog) : Nat := Span.total log.late

/-- The operands are read from where the data begins up to `reached`, in an entry that
ends at `stop`. -/
structure Placed (log : AugmentationLog) (data : Span) (reached stop : Word) : Prop where
  fits : data.pos ≤ data.limit ∧ data.limit ≤ stop
  early : ∀ operand ∈ log.early, operand.pos < operand.limit ∧ operand.limit ≤ data.pos
  late : Span.Tiles data.pos log.late reached
  reached : reached ≤ stop

/-- What the length of the data decides. -/
structure Account (log : AugmentationLog) (data instructions : Span) (stop : Word) : Prop where
  fits : data.pos ≤ data.limit ∧ data.limit ≤ stop
  begins : instructions = ⟨data.limit, stop⟩
  inside : (∀ operand ∈ log.operands, operand.Inside data) ↔
    log.early = [] ∧ log.required ≤ data.remaining
  apart : (∀ operand ∈ log.operands, ∀ address, operand.Has address →
    ¬ instructions.Has address) ↔ log.required ≤ data.remaining

variable {log : AugmentationLog} {data : Span} {reached stop : Word}

theorem Placed.required_le_iff (h : log.Placed data reached stop) :
    log.required ≤ data.remaining ↔ reached ≤ data.limit := by
  have htotal := h.late.total_eq
  have hfits := UInt64.le_iff_toNat_le.mp h.fits.1
  unfold required Span.remaining at *
  rw [UInt64.le_iff_toNat_le]
  omega

theorem Placed.exists_last (h : log.Placed data reached stop) (hlong : ¬ reached ≤ data.limit) :
    ∃ operand ∈ log.operands, operand.pos < operand.limit ∧ operand.limit = reached := by
  have hne : data.pos ≠ reached := fun heq => hlong (heq ▸ h.fits.1)
  obtain ⟨operand, hmem, hlast⟩ := h.late.last hne
  exact ⟨operand, List.mem_append_right _ hmem, hlast⟩

theorem Placed.inside_iff (h : log.Placed data reached stop) :
    (∀ operand ∈ log.operands, operand.Inside data) ↔
      log.early = [] ∧ log.required ≤ data.remaining := by
  rw [h.required_le_iff]
  constructor
  · intro hinside
    refine ⟨List.eq_nil_iff_forall_not_mem.mpr fun operand hmem => ?_, ?_⟩
    · obtain ⟨hlt, hle⟩ := h.early operand hmem
      have hbegins := (hinside operand (List.mem_append_left _ hmem)).1
      exact UInt64.lt_irrefl _ (UInt64.lt_of_lt_of_le hlt (UInt64.le_trans hle hbegins))
    · refine Decidable.byContradiction fun hlong => ?_
      obtain ⟨operand, hmem, -, rfl⟩ := h.exists_last hlong
      exact hlong (hinside operand hmem).2
  · rintro ⟨hearly, hreached⟩ operand hmem
    unfold operands at hmem
    rw [hearly, List.nil_append] at hmem
    obtain ⟨hbegins, -, hends⟩ := h.late.bounds hmem
    exact ⟨hbegins, UInt64.le_trans hends hreached⟩

theorem Placed.apart_iff (h : log.Placed data reached stop) :
    (∀ operand ∈ log.operands, ∀ address, operand.Has address →
      ¬ Span.Has ⟨data.limit, stop⟩ address) ↔ log.required ≤ data.remaining := by
  rw [h.required_le_iff]
  constructor
  · intro hapart
    refine Decidable.byContradiction fun hlong => ?_
    obtain ⟨operand, hmem, hlt, rfl⟩ := h.exists_last hlong
    have hends := h.reached
    simp only [UInt64.le_iff_toNat_le, UInt64.lt_iff_toNat_lt] at hlong hlt hends
    have hlast : (operand.limit - 1).toNat = operand.limit.toNat - 1 := by
      rw [UInt64.toNat_sub_of_le]
      · rfl
      · rw [UInt64.le_iff_toNat_le]
        exact Nat.succ_le_of_lt (Nat.lt_of_le_of_lt (Nat.zero_le _) hlt)
    refine hapart operand hmem (operand.limit - 1) ⟨?_, ?_⟩ ⟨?_, ?_⟩
    all_goals
      simp only [UInt64.le_iff_toNat_le, UInt64.lt_iff_toNat_lt, hlast]
      omega
  · intro hreached operand hmem address hhas hinstruction
    have hends : operand.limit ≤ data.limit := by
      rcases List.mem_append.mp hmem with hmem | hmem
      · exact UInt64.le_trans (h.early operand hmem).2 h.fits.1
      · exact UInt64.le_trans (h.late.bounds hmem).2.2 hreached
    exact UInt64.lt_irrefl _ (UInt64.lt_of_lt_of_le hhas.2
      (UInt64.le_trans hends hinstruction.1))

theorem Placed.account (h : log.Placed data reached stop) :
    log.Account data ⟨data.limit, stop⟩ stop :=
  ⟨h.fits, rfl, h.inside_iff, h.apart_iff⟩

end AugmentationLog

end Unwinding
