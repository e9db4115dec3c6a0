import Mathlib.Data.List.Range
import Unwinding.Memory.Snapshot
import Unwinding.Proofs.CallFrame.Rules
import Unwinding.Compact.X64

/-!
# Functions with a frame pointer

Such a function has its frame record, the frame pointer of its caller below the
return address, and saves up to five registers at places that count up to the
record. Where the lowest place is comes from the encoding, and so does the register
of each place. Nothing compares these with the record: a place can reach into it, the
frame pointer can be given a place of its own, and a register can be given two, of
which the higher one counts. The record stays as it is just where none of this
happens.
-/

namespace Unwinding.Compact.X64

variable {space : AddressSpace} {encoding : CompactEncoding} {start : Word} {row : Row}

/-- The register that is saved at place `i`. -/
def named (encoding : CompactEncoding) (i : Nat) : Option Register :=
  match encoding.field (3 * i) 3 with
  | 1 => some 3
  | 2 => some 12
  | 3 => some 13
  | 4 => some 14
  | 5 => some 15
  | 6 => some 6
  | _ => none

theorem named_eq (encoding : CompactEncoding) (i : Nat) : named encoding i =
    match encoding.field (3 * i) 3 with
    | 0 => none
    | n + 1 => saved[n]? := by
  unfold named
  rcases encoding.field (3 * i) 3 with _ | _ | _ | _ | _ | _ | _ | n <;> rfl

/-- Where place `i` is, from the frame address. -/
def place (encoding : CompactEncoding) (i : Nat) : Int64 :=
  words (i - 2 - encoding.field 16 8)

/-- The rule that place `i` gives to its register. -/
def save (encoding : CompactEncoding) (i : Nat) : Option (Register × Rule) :=
  (named encoding i).map fun r => (r, .inCfa (place encoding i))

def saves (encoding : CompactEncoding) : List (Register × Rule) :=
  (List.range 5).filterMap (save encoding)

def frameRecord : List (Register × Rule) := [(6, .inCfa (words (-2))), (16, .inCfa (words (-1)))]

/-- The row with nothing but the frame address. -/
def recordRow : Row := { Row.empty 16 with cfa := .registerOffset 6 (words 2) }

theorem field_lt_eight (encoding : CompactEncoding) (low : Nat) : encoding.field low 3 < 8 :=
  Nat.mod_lt _ (by decide)

theorem framePlace_eq {i : Nat} (h : encoding.field (3 * i) 3 ≠ 7) :
    framePlace encoding i = .ok (save encoding i) := by
  have hlt := field_lt_eight encoding (3 * i)
  unfold framePlace save
  rw [named_eq]
  cases hfield : encoding.field (3 * i) 3 with
  | zero => rfl
  | succ n =>
    have hn : n < saved.length := by
      change n < 6
      omega
    dsimp only
    rw [List.getElem?_eq_getElem hn]
    rfl

/-- Seven is the number of no register. -/
theorem framePlace_error {i : Nat} (h : encoding.field (3 * i) 3 = 7) :
    framePlace encoding i = .error (.badMode encoding) := by
  unfold framePlace
  rw [h]
  rfl

theorem frame_eq (h : ∀ i < 5, encoding.field (3 * i) 3 ≠ 7) :
    frame encoding = (recordRow.setRules (frameRecord ++ saves encoding)).mapError .cfi := by
  have hplaces := Outcome.mapM_of_ok fun i hi => framePlace_eq (h i (List.mem_range.mp hi))
  unfold frame
  rw [hplaces]
  change ((recordRow.setRules (frameRecord ++
    ((List.range 5).map _).filterMap id)).mapError CompactError.cfi) = _
  rw [List.filterMap_map]
  rfl

theorem frame_error (h : ∃ i < 5, encoding.field (3 * i) 3 = 7) :
    frame encoding = .error (.badMode encoding) := by
  have hplaces : (List.range 5).mapM (framePlace encoding) = .error (.badMode encoding) := by
    refine Outcome.mapM_of_error (fun i _ => ?_) ?_
    · by_cases hfield : encoding.field (3 * i) 3 = 7
      · exact .inl (framePlace_error hfield)
      · exact .inr ⟨_, framePlace_eq hfield⟩
    · obtain ⟨i, hi, hfield⟩ := h
      exact ⟨i, List.mem_range.mpr hi, framePlace_error hfield⟩
  unfold frame
  rw [hplaces]
  rfl

theorem named_saved {i : Nat} {r : Register} (h : named encoding i = some r) : r ∈ saved := by
  rw [named_eq] at h
  split at h
  · cases h
  · exact List.mem_of_getElem? h

theorem key_save {i : Nat} : (save encoding i).map Prod.fst = named encoding i := by
  unfold save
  cases named encoding i <;> rfl

theorem mem_keys_saves {r : Register} :
    r ∈ (saves encoding).map Prod.fst ↔ ∃ i < 5, named encoding i = some r := by
  unfold saves
  rw [List.map_filterMap, List.mem_filterMap]
  refine exists_congr fun i => ?_
  rw [List.mem_range, key_save]

/-- What is known of the row: who is saved in which place. -/
structure FrameRow (encoding : CompactEncoding) (row : Row) : Prop where
  cfa : row.cfa = .registerOffset 6 16
  returnAddress : row.returnAddress = 16
  returns : row.rule 16 = .inCfa (-8)
  /-- The frame pointer is in the record if it has no place of its own. -/
  record : (∀ i < 5, named encoding i ≠ some 6) → row.rule 6 = .inCfa (-16)
  /-- The highest place of a register counts. -/
  saved : ∀ i < 5, ∀ r, named encoding i = some r →
    (∀ j < 5, i < j → named encoding j ≠ some r) → row.rule r = .inCfa (place encoding i)
  unruled : ∀ r, r ≠ 6 → r ≠ 16 → (∀ i < 5, named encoding i ≠ some r) → row.rule r = .unused

theorem saves_split {i : Nat} (hi : i < 5) {r : Register} (h : named encoding i = some r) :
    ∃ before behind, saves encoding = before ++ (r, .inCfa (place encoding i)) :: behind ∧
      ∀ r', r' ∈ behind.map Prod.fst → ∃ j < 5, i < j ∧ named encoding j = some r' := by
  obtain ⟨low, high, hrange⟩ := List.append_of_mem (List.mem_range.mpr hi)
  have hsorted : (low ++ i :: high).Pairwise (· < ·) := hrange ▸ List.pairwise_lt_range
  have hlater := (List.pairwise_cons.mp (List.pairwise_append.mp hsorted).2.1).1
  refine ⟨low.filterMap (save encoding), high.filterMap (save encoding), ?_, fun r' hr' => ?_⟩
  · unfold saves
    rw [hrange, List.filterMap_append, List.filterMap_cons]
    unfold save
    rw [h]
    rfl
  · rw [List.map_filterMap, List.mem_filterMap] at hr'
    obtain ⟨j, hj, hnamed⟩ := hr'
    have hlt : j < 5 := by
      rw [← List.mem_range, hrange]
      exact List.mem_append_right low (List.mem_cons_of_mem i hj)
    rw [key_save] at hnamed
    exact ⟨j, hlt, hlater j hj, hnamed⟩

theorem rule_frameRecord {middle : Row} (h : recordRow.setRules frameRecord = .ok middle) :
    middle.rule 6 = .inCfa (-16) ∧ middle.rule 16 = .inCfa (-8) ∧
      ∀ r, r ≠ 6 → r ≠ 16 → middle.rule r = .unused := by
  obtain ⟨hruled, hunruled⟩ := Row.rule_setRules (by decide) h
  refine ⟨hruled (6, _) (by decide), hruled (16, _) (by decide), fun r h6 h16 => ?_⟩
  have hr : r ∉ frameRecord.map Prod.fst := fun hmem =>
    (List.mem_cons.mp hmem).elim h6 fun hmem => h16 (List.mem_singleton.mp hmem)
  exact (hunruled r hr).trans (Row.rule_empty 16 r)

theorem frameRow_of_setRules (h : recordRow.setRules (frameRecord ++ saves encoding) = .ok row) :
    FrameRow encoding row := by
  obtain ⟨values, hrest⟩ := Row.setRules_rest h
  obtain ⟨middle, hrecord, hset⟩ := Row.setRules_append.mp h
  obtain ⟨hframe, hreturns, hothers⟩ := rule_frameRecord hrecord
  have hfree {r : Register} (hr : ∀ i < 5, named encoding i ≠ some r) :
      row.rule r = middle.rule r := by
    refine Row.rule_setRules_of_not_mem (fun hmem => ?_) hset
    obtain ⟨i, hi, hnamed⟩ := mem_keys_saves.mp hmem
    exact hr i hi hnamed
  refine ⟨?_, ?_, ?_, fun hr => ?_, fun i hi r hnamed hlast => ?_, fun r h6 h16 hr => ?_⟩
  · rw [hrest]
    rfl
  · rw [hrest]
    rfl
  · rw [hfree fun i _ hnamed => absurd (named_saved hnamed) (by decide), hreturns]
  · rw [hfree hr, hframe]
  · obtain ⟨before, behind, hsplit, hbehind⟩ := saves_split hi hnamed
    rw [hsplit] at hset
    refine Row.rule_setRules_last (fun hr => ?_) hset
    obtain ⟨j, hj, hlt, hlater⟩ := hbehind r hr
    exact hlast j hj hlt hlater
  · rw [hfree hr, hothers r h6 h16]

theorem exists_frameRow (hmode : encoding.mode = 1) (h : ∀ i < 5, encoding.field (3 * i) 3 ≠ 7) :
    ∃ row, decode space encoding start = .ok (.row row) ∧ FrameRow encoding row := by
  have hcapacity : ∀ member ∈ frameRecord ++ saves encoding, member.1 < Row.capacity := by
    intro member hmember
    rcases List.mem_append.mp hmember with hrecord | hsave
    · have hall : ∀ member ∈ frameRecord, member.1 < Row.capacity := by decide
      exact hall member hrecord
    · have hall : ∀ r ∈ saved, r < Row.capacity := by decide
      obtain ⟨i, -, hnamed⟩ := mem_keys_saves.mp (List.mem_map_of_mem hsave)
      exact hall _ (named_saved hnamed)
  obtain ⟨row, hrow⟩ := Row.setRules_exists hcapacity recordRow
  refine ⟨row, ?_, frameRow_of_setRules hrow⟩
  have hframe : frame encoding = .ok row := by
    rw [frame_eq h]
    exact Outcome.mapError_eq_ok.mpr hrow
  unfold decode
  rw [hmode, hframe]
  rfl

theorem decode_of_seven (hmode : encoding.mode = 1) (h : ∃ i < 5, encoding.field (3 * i) 3 = 7) :
    decode space encoding start = .error (.badMode encoding) := by
  unfold decode
  rw [hmode, frame_error h]
  rfl

/-! ## The record -/

theorem words_inj {a b : Int} (ha : -0x100000000 ≤ a ∧ a ≤ 0x100000000)
    (hb : -0x100000000 ≤ b ∧ b ≤ 0x100000000) (h : words a = words b) : a = b := by
  have hsame := congrArg Int64.toInt h
  unfold words at hsame
  rw [Int64.toInt_ofInt_of_le (by omega) (by omega),
    Int64.toInt_ofInt_of_le (by omega) (by omega)] at hsame
  omega

/-- Place `i` is `k` words off the frame address just where the encoding says so. -/
theorem place_eq_iff {i : Nat} (hi : i < 5) {k : Int} (hk : -2 ≤ k ∧ k ≤ 0) :
    place encoding i = words k ↔ (i : Int) = encoding.field 16 8 + 2 + k := by
  have hoffset : encoding.field 16 8 < 256 := Nat.mod_lt _ (by decide)
  unfold place
  constructor
  · intro h
    have hsame := words_inj (by omega) (by omega) h
    omega
  · intro h
    refine congrArg words ?_
    omega

/-- No register has its rule from two places. -/
def NamedOnce (encoding : CompactEncoding) : Prop :=
  ∀ i < 5, ∀ j < 5, i ≠ j → named encoding i ≠ none → named encoding i ≠ named encoding j

/-- The frame record is where the function put it, and nothing else is saved there. -/
structure Intact (encoding : CompactEncoding) (row : Row) : Prop where
  cfa : row.cfa = .registerOffset 6 16
  record : row.rule 6 = .inCfa (-16)
  returns : row.rule 16 = .inCfa (-8)
  once : NamedOnce encoding
  apart : ∀ r, r ≠ 6 → r ≠ 16 → row.rule r ≠ .inCfa (-16) ∧ row.rule r ≠ .inCfa (-8)

/-- The places name each register once, and those that reach into the record name
nothing but what it holds there. -/
structure Respects (encoding : CompactEncoding) : Prop where
  once : NamedOnce encoding
  record : ∀ i < 5, named encoding i = some 6 → i = encoding.field 16 8
  apart : ∀ i < 5, named encoding i ≠ none → named encoding i ≠ some 6 →
    i ≠ encoding.field 16 8 ∧ i ≠ encoding.field 16 8 + 1

theorem FrameRow.saved_once (h : FrameRow encoding row) (honce : NamedOnce encoding)
    {i : Nat} (hi : i < 5) {r : Register} (hnamed : named encoding i = some r) :
    row.rule r = .inCfa (place encoding i) := by
  refine h.saved i hi r hnamed fun j hj hlt hagain => ?_
  refine honce i hi j hj (Nat.ne_of_lt hlt) ?_ (hnamed.trans hagain.symm)
  rw [hnamed]
  exact nofun

theorem FrameRow.respects (h : FrameRow encoding row) (hintact : Intact encoding row) :
    Respects encoding where
  once := hintact.once
  record := by
    intro i hi hnamed
    have hplace := (h.saved_once hintact.once hi hnamed).symm.trans hintact.record
    have hsame := (place_eq_iff hi (by decide)).mp (Rule.inCfa.inj hplace : _ = words (-2))
    omega
  apart := by
    intro i hi hsome hne
    obtain ⟨r, hnamed⟩ := Option.ne_none_iff_exists'.mp hsome
    have h6 : r ≠ 6 := fun h6 => hne (h6 ▸ hnamed)
    have h16 : r ≠ 16 := by
      rintro rfl
      exact absurd (named_saved hnamed) (by decide)
    obtain ⟨hframe, hreturns⟩ := hintact.apart r h6 h16
    rw [h.saved_once hintact.once hi hnamed] at hframe hreturns
    constructor
    · rintro rfl
      exact hframe (congrArg Rule.inCfa ((place_eq_iff (k := -2) hi (by decide)).mpr (by omega)))
    · rintro rfl
      exact hreturns (congrArg Rule.inCfa ((place_eq_iff (k := -1) hi (by decide)).mpr (by omega)))

theorem FrameRow.intact (h : FrameRow encoding row) (hrespects : Respects encoding) :
    Intact encoding row where
  cfa := h.cfa
  record := by
    by_cases hfree : ∀ i < 5, named encoding i ≠ some 6
    · exact h.record hfree
    · push Not at hfree
      obtain ⟨i, hi, hnamed⟩ := hfree
      have hsame := hrespects.record i hi hnamed
      rw [h.saved_once hrespects.once hi hnamed]
      exact congrArg Rule.inCfa ((place_eq_iff (k := -2) hi (by decide)).mpr (by omega))
  returns := h.returns
  once := hrespects.once
  apart := by
    intro r h6 h16
    by_cases hfree : ∀ i < 5, named encoding i ≠ some r
    · rw [h.unruled r h6 h16 hfree]
      exact ⟨nofun, nofun⟩
    · push Not at hfree
      obtain ⟨i, hi, hnamed⟩ := hfree
      have hsome : named encoding i ≠ none := hnamed ▸ Option.some_ne_none r
      have hne : named encoding i ≠ some 6 := fun h => h6 (Option.some.inj (hnamed.symm.trans h))
      obtain ⟨hframe, hreturns⟩ := hrespects.apart i hi hsome hne
      rw [h.saved_once hrespects.once hi hnamed]
      constructor
      · intro hplace
        have hsame := (place_eq_iff hi (by decide)).mp (Rule.inCfa.inj hplace : _ = words (-2))
        omega
      · intro hplace
        have hsame := (place_eq_iff hi (by decide)).mp (Rule.inCfa.inj hplace : _ = words (-1))
        omega

/-- An encoding with a frame pointer is refused only for a number that is no register's.
In the row of any other, each register has the highest of its places, and the record is
intact just where the places respect it. -/
theorem decode_intact_iff (hmode : encoding.mode = 1) :
    ((∃ row, decode space encoding start = .ok (.row row)) ↔
      ∀ i < 5, encoding.field (3 * i) 3 ≠ 7) ∧
    ((∃ i < 5, encoding.field (3 * i) 3 = 7) →
      decode space encoding start = .error (.badMode encoding)) ∧
    ∀ row, decode space encoding start = .ok (.row row) →
      FrameRow encoding row ∧ (Intact encoding row ↔ Respects encoding) := by
  have hknown : ∀ row, decode space encoding start = .ok (.row row) →
      ∀ i < 5, encoding.field (3 * i) 3 ≠ 7 := by
    intro row hrow i hi hseven
    rw [decode_of_seven hmode ⟨i, hi, hseven⟩] at hrow
    cases hrow
  refine ⟨⟨fun ⟨row, hrow⟩ => hknown row hrow, fun hfields => ?_⟩, decode_of_seven hmode,
    fun row hrow => ?_⟩
  · obtain ⟨row, hrow, -⟩ := exists_frameRow hmode hfields
    exact ⟨row, hrow⟩
  · obtain ⟨row', hrow', hdescribed⟩ := exists_frameRow hmode (hknown row hrow)
    rw [hrow] at hrow'
    cases hrow'
    exact ⟨hdescribed, hdescribed.respects, hdescribed.intact⟩

/-- Registers 3 and 12 are saved below the record. -/
theorem decode_intact_iff_two :
    CompactEncoding.mode ⟨0x01030011⟩ = 1 ∧
      ∃ row, decode (Snapshot.mk .little []).space ⟨0x01030011⟩ 0 = .ok (.row row) ∧
        Intact ⟨0x01030011⟩ row ∧ row.rule 3 = .inCfa (-40) ∧ row.rule 12 = .inCfa (-32) := by
  have hmode : CompactEncoding.mode ⟨0x01030011⟩ = 1 := by decide
  have hrespects : Respects ⟨0x01030011⟩ := ⟨by unfold NamedOnce; decide, by decide, by decide⟩
  obtain ⟨hdecoded, -, hrows⟩ :=
    @decode_intact_iff (Snapshot.mk .little []).space ⟨0x01030011⟩ 0 hmode
  obtain ⟨row, hrow⟩ := hdecoded.mpr (by decide)
  obtain ⟨hdescribed, hintact⟩ := hrows row hrow
  exact ⟨hmode, row, hrow, hintact.mpr hrespects, hdescribed.saved 0 (by decide) 3 rfl (by decide),
    hdescribed.saved 1 (by decide) 12 rfl (by decide)⟩

/-- Not refused: the frame pointer with a place below the record, register 3 in the
place of the frame pointer, and register 3 in two places. -/
theorem decode_not_intact :
    ∃ lower shared twice,
      decode (Snapshot.mk .little []).space ⟨0x01010006⟩ 0 = .ok (.row lower) ∧
      lower.rule 6 = .inCfa (-24) ∧ ¬ Intact ⟨0x01010006⟩ lower ∧
      decode (Snapshot.mk .little []).space ⟨0x01000001⟩ 0 = .ok (.row shared) ∧
      shared.rule 3 = .inCfa (-16) ∧ shared.rule 6 = .inCfa (-16) ∧
      ¬ Intact ⟨0x01000001⟩ shared ∧
      decode (Snapshot.mk .little []).space ⟨0x01050009⟩ 0 = .ok (.row twice) ∧
      ¬ Intact ⟨0x01050009⟩ twice := by
  let space := (Snapshot.mk .little []).space
  obtain ⟨lower, hlower, hlowerRow⟩ :=
    @exists_frameRow space ⟨0x01010006⟩ 0 (by decide) (by decide)
  obtain ⟨shared, hshared, hsharedRow⟩ :=
    @exists_frameRow space ⟨0x01000001⟩ 0 (by decide) (by decide)
  obtain ⟨twice, htwice, htwiceRow⟩ :=
    @exists_frameRow space ⟨0x01050009⟩ 0 (by decide) (by decide)
  refine ⟨lower, shared, twice, hlower, hlowerRow.saved 0 (by decide) 6 rfl (by decide), ?_,
    hshared, hsharedRow.saved 0 (by decide) 3 rfl (by decide), hsharedRow.record (by decide), ?_,
    htwice, ?_⟩
  · exact fun h => absurd ((hlowerRow.respects h).record 0 (by decide) rfl) (by decide)
  · exact fun h => absurd ((hsharedRow.respects h).apart 0 (by decide) nofun nofun).1 (by decide)
  · exact fun h => (htwiceRow.respects h).once 0 (by decide) 1 (by decide) (by decide) nofun rfl

end Unwinding.Compact.X64
