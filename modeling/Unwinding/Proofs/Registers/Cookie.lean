import Unwinding.Memory.Snapshot
import Unwinding.Proofs.CallFrame.Catalogued
import Unwinding.Proofs.Expression.Asked
import Unwinding.Proofs.Registers.Restored

/-!
# What reaches the window cookie

The cookie that spilled register windows are combined with is kept in a register file,
under a number above all that rules may name. A caller that is restored without such a
window should not depend on it. Rules and the frame address do not, since their registers
are looked up in the catalog. Two more numbers come from the tables, and are not looked
up: the column of the return address, and the register operands of expressions. Through
these, and through nothing else, call frame information can name the cookie.
-/

namespace Unwinding

variable {arch : Arch} {space : AddressSpace} {hidden r : Register}
  {old old' new new' : RegisterFile arch} {cfa : Word} {rule : Rule} {row : Row}

namespace RegisterFile

theorem AlikeBut.write (h : new.AlikeBut hidden new') (r : Register) (value : RegisterValue) :
    Outcome.Related (AlikeBut hidden) (new.write r value) (new'.write r value) := by
  by_cases hclass : arch.registerClass r = some value.registerClass
  · obtain ⟨file, hfile⟩ := new.write_accepted.mpr hclass
    obtain ⟨file', hfile'⟩ := new'.write_accepted.mpr hclass
    rw [hfile, hfile']
    obtain ⟨s, hs, -, hcontent⟩ := write_eq_ok.mp hfile
    obtain ⟨_, hs', -, hcontent'⟩ := write_eq_ok.mp hfile'
    cases hs.symm.trans hs'
    refine .ok fun t ht => ?_
    rw [hcontent, hcontent', Function.update_apply, Function.update_apply, h t ht]
  · rw [new.write_refused hclass, new'.write_refused hclass]
    exact .error

theorem AlikeBut.update (h : new.AlikeBut hidden new') {s : Slot} (hs : arch.slot r = some s)
    (hclass : s.registerClass = .integer) (value : Word) :
    (new.update r value).AlikeBut hidden (new'.update r value) := by
  intro t ht
  rw [content_update new hs hclass, content_update new' hs hclass, Function.update_apply,
    Function.update_apply, h t ht]

theorem AlikeBut.setSp (h : new.AlikeBut hidden new') (address : Word) :
    (new.setSp address).AlikeBut hidden (new'.setSp address) := by
  obtain ⟨i, hi⟩ := Arch.slot_sp arch
  exact h.update hi rfl address

end RegisterFile

/-- The rule does not take anything from the hidden register. -/
structure Rule.Avoids (rule : Rule) (space : AddressSpace) (file : RegisterFile arch) (cfa : Word)
    (hidden : Register) : Prop where
  source : rule ≠ .inRegister hidden
  plain : ∀ n, rule ≠ .inCfaDecrypted n
  silent : ∀ code, rule = .atExpression code ∨ rule = .isExpression code →
    ¬ code.Asks space file cfa hidden

namespace Callee

open RegisterFile (AlikeBut)

theorem restore_eq (callee : Callee arch) (new : RegisterFile arch) (r : Register) (rule : Rule) :
    callee.restore new r rule =
      match arch.registerClass r with
      | some c => callee.value r rule c >>= fun value => liftM (new.write r value)
      | none => throw (.unsupportedRule r rule) := by
  unfold restore
  cases arch.registerClass r with
  | none => rfl
  | some c =>
    cases c with
    | integer =>
      unfold value
      cases callee.integer r rule <;> rfl
    | float =>
      unfold value
      cases callee.float r rule <;> rfl
    | vector =>
      unfold value
      cases callee.vector r rule <;> rfl

variable (halike : old.AlikeBut hidden old') (hr : r ≠ hidden)
  (havoids : rule.Avoids space old cfa hidden)

include halike hr havoids

/-- Over files that differ in the hidden register only, such a rule gives the same. -/
theorem value_congr (c : RegisterClass) : (Callee.mk space old cfa).value r rule c =
    (Callee.mk space old' cfa).value r rule c := by
  cases rule with
  | unused =>
    cases c <;> simp only [value, integer, float, vector, halike.get hr, halike.getFloat hr,
      halike.getVector hr]
  | inRegister source =>
    have hsource : source ≠ hidden := fun h => havoids.source (congrArg _ h)
    cases c <;> simp only [value, integer, float, vector, halike.get hsource,
      halike.getFloat hsource, halike.getVector hsource]
  | inCfaDecrypted n => exact absurd rfl (havoids.plain n)
  | atExpression code =>
    have hsame := Expression.evaluate_congr halike (havoids.silent code (.inl rfl))
    cases c <;> simp only [value, integer, float, vector, evaluate, hsame]
  | isExpression code =>
    have hsame := Expression.evaluate_congr halike (havoids.silent code (.inr rfl))
    cases c <;> simp only [value, integer, float, vector, evaluate, hsame]
  | undefined | inCfa | offsetFromCfa => cases c <;> rfl

theorem restore_related (hnew : new.AlikeBut hidden new') :
    Outcome.Related (AlikeBut hidden) ((Callee.mk space old cfa).restore new r rule)
      ((Callee.mk space old' cfa).restore new' r rule) := by
  rw [restore_eq, restore_eq]
  cases arch.registerClass r with
  | none => exact .error
  | some c =>
    dsimp only
    rw [value_congr halike hr havoids c]
    exact .bind_same fun value _ => (hnew.write r value).mapError _

theorem integer_congr : (Callee.mk space old cfa).integer r rule =
    (Callee.mk space old' cfa).integer r rule := by
  have hvalue := value_congr halike hr havoids .integer
  unfold value at hvalue
  cases hold : (Callee.mk space old cfa).integer r rule <;>
    cases hold' : (Callee.mk space old' cfa).integer r rule <;>
    rw [hold, hold'] at hvalue <;> cases hvalue <;> rfl

end Callee

namespace Row

open RegisterFile (AlikeBut)

/-- To apply the row, an expression is evaluated that takes a value from the register. -/
inductive Asks (row : Row) (space : AddressSpace) (file : RegisterFile arch) (r : Register) : Prop
  | cfa {code : Expression} : row.cfa = .expression code → code.Asks space file 0 r →
      Asks row space file r
  | rule {column : Register} {code : Expression} {cfa : Word} :
      row.rule column = .atExpression code ∨ row.rule column = .isExpression code →
      row.frameAddress space file = .ok cfa → code.Asks space file cfa r → Asks row space file r

section Beyond

variable (halike : old.AlikeBut hidden old') (hrow : row.Catalogued arch)
  (hbeyond : arch.highest < hidden) (hasks : ¬ row.Asks space old hidden)

include halike hrow hbeyond hasks

/-- A frame address is not found through a register beyond the catalog. -/
theorem frameAddress_congr : row.frameAddress space old = row.frameAddress space old' := by
  unfold frameAddress
  cases hcfa : row.cfa with
  | undefined => rfl
  | registerOffset r n =>
    have hr : r ≠ hidden := Nat.ne_of_lt (Nat.lt_of_le_of_lt (hrow.cfa r n hcfa) hbeyond)
    dsimp only
    rw [halike.get hr]
  | expression code =>
    dsimp only
    rw [Expression.evaluate_congr halike fun h => hasks (.cfa hcfa h)]

omit halike in
theorem avoids_of_catalogued (hplain : ∀ r n, row.rule r ≠ .inCfaDecrypted n)
    (hcfa : row.frameAddress space old = .ok cfa) (r : Register) :
    (row.rule r).Avoids space old cfa hidden where
  source hsource :=
    absurd (hrow.source r hidden hsource) (Nat.not_le_of_gt hbeyond)
  plain := hplain r
  silent _ hcode h := hasks (.rule hcode hcfa h)

theorem restored_related (hplain : ∀ r n, row.rule r ≠ .inCfaDecrypted n)
    (hcfa : row.frameAddress space old = .ok cfa) :
    Outcome.Related (AlikeBut hidden)
      ((row.restored arch).foldlM (fun new (r, rule) =>
        (Callee.mk space old cfa).restore new r rule) (old.setSp cfa))
      ((row.restored arch).foldlM (fun new (r, rule) =>
        (Callee.mk space old' cfa).restore new r rule) (old'.setSp cfa)) := by
  refine .foldlM (halike.setSp cfa) ?_
  rintro ⟨r, rule⟩ hmem new new' hnew
  obtain ⟨hle, -, -, rfl⟩ := mem_restored.mp hmem
  exact Callee.restore_related halike (Nat.ne_of_lt (Nat.lt_of_le_of_lt hle hbeyond))
    (avoids_of_catalogued hrow hbeyond hasks hplain hcfa r) hnew

end Beyond

section Window

variable {old old' new new' : RegisterFile .sparc64}

theorem apply_sparc64 (row : Row) (space : AddressSpace) (file : RegisterFile .sparc64) :
    row.apply space file = (do
      let cfa ← row.frameAddress space file
      let callee : Callee .sparc64 := ⟨space, file, cfa⟩
      let new ← (row.restored .sparc64).foldlM (fun new (r, rule) => callee.restore new r rule)
        (file.setSp cfa)
      let address ← callee.integer row.returnAddress (row.rule row.returnAddress)
      return new.setIp (address + 8)) := by
  unfold apply returnTarget
  refine bind_congr fun cfa => bind_congr fun new => ?_
  simp only [bind_assoc, pure_bind]
  refine bind_congr fun address => ?_
  split <;> rfl

/-- The callers' registers agree but for the cookie, and for the instruction pointer where
the cookie stands for the return address. -/
structure ReturnsBeside (row : Row) (old old' new new' : RegisterFile .sparc64) : Prop where
  other : ∀ s, s ≠ .ip → Arch.sparc64.slot Arch.windowCookie ≠ some s →
    new.content s = new'.content s
  ip : if row.returnAddress = Arch.windowCookie then
      new.ip = old.cookie + 8 ∧ new'.ip = old'.cookie + 8
    else new.ip = new'.ip

variable (halike : old.AlikeBut Arch.windowCookie old') (hrow : row.Catalogued .sparc64)
  (hplain : ∀ r n, row.rule r ≠ .inCfaDecrypted n) (hasks : ¬ row.Asks space old Arch.windowCookie)

include halike hrow hplain hasks

theorem apply_related :
    Outcome.Related (row.ReturnsBeside old old') (row.apply space old) (row.apply space old') := by
  have hbeyond : Arch.sparc64.highest < Arch.windowCookie := by decide
  rw [apply_sparc64, apply_sparc64, ← frameAddress_congr halike hrow hbeyond hasks]
  refine .bind_same fun cfa hcfa => ?_
  refine (restored_related halike hrow hbeyond hasks hplain hcfa).bind fun new new' hnew => ?_
  have hother : ∀ (address address' : Word) (s : Slot), s ≠ .ip →
      Arch.sparc64.slot Arch.windowCookie ≠ some s →
        (new.setIp address).content s = (new'.setIp address').content s := by
    intro address address' s hip hs
    rw [new.content_setIp_of_ne hip, new'.content_setIp_of_ne hip, hnew s hs]
  by_cases hcolumn : row.returnAddress = Arch.windowCookie
  · have hunused : row.rule Arch.windowCookie = .unused := rule_beyond row (by decide)
    rw [hcolumn, hunused]
    exact .ok ⟨hother _ _, if_pos hcolumn ▸ ⟨rfl, rfl⟩⟩
  · rw [Callee.integer_congr halike hcolumn
      (avoids_of_catalogued hrow hbeyond hasks hplain hcfa row.returnAddress)]
    refine .bind_same fun address _ => .ok ⟨hother _ _, ?_⟩
    rw [if_neg hcolumn]
    rfl

/-- Only a return address in the cookie makes a difference, and then always. -/
theorem related_iff :
    Outcome.Related (AlikeBut Arch.windowCookie) (row.apply space old) (row.apply space old') ↔
      (row.returnAddress = Arch.windowCookie → old.cookie ≠ old'.cookie →
        ∃ error, row.apply space old = .error error) := by
  have happly := apply_related halike hrow hplain hasks
  generalize row.apply space old = x at happly ⊢
  generalize row.apply space old' = x' at happly ⊢
  cases happly with
  | error => exact ⟨fun _ _ _ => ⟨_, rfl⟩, fun _ => .error⟩
  | @ok new new' hbeside =>
    have hip := hbeside.ip
    constructor
    · rintro (_ | hnew) hcolumn hcookies
      have hsame := hnew .ip nofun
      rw [RegisterFile.ip_eq, RegisterFile.ip_eq, RegisterValue.word.injEq] at hsame
      rw [if_pos hcolumn] at hip
      rw [hip.1, hip.2, UInt64.add_left_inj] at hsame
      exact absurd hsame hcookies
    · intro hfails
      have hsame : new.ip = new'.ip := by
        by_cases hcolumn : row.returnAddress = Arch.windowCookie
        · rw [if_pos hcolumn] at hip
          by_cases hcookies : old.cookie = old'.cookie
          · rw [hip.1, hip.2, hcookies]
          · obtain ⟨error, herror⟩ := hfails hcolumn hcookies
            cases herror
        · rw [if_neg hcolumn] at hip
          exact hip
      refine .ok fun s hs => ?_
      by_cases hslot : s = .ip
      · rw [hslot, RegisterFile.ip_eq, RegisterFile.ip_eq, hsame]
      · exact hbeside.other s hslot hs

end Window

/-- For rows of which no register was saved with the cookie: rules and frame address do
not name the cookie, and unless an expression asks for it, callers restored from files
that differ in the cookie only differ in it only. The one exception is a return address
in the column of the cookie, which is then what the caller goes on at. -/
theorem apply_beside_cookie {bases : Bases} {address pc : Word} {entry : FrameEntry}
    {common : CommonEntry} {old old' : RegisterFile .sparc64}
    (hrow : FrameEntry.rowAt .sparc64 space bases address pc = .ok (row, entry, common))
    (hplain : ∀ r n, row.rule r ≠ .inCfaDecrypted n)
    (halike : old.AlikeBut Arch.windowCookie old')
    (hasks : ¬ row.Asks space old Arch.windowCookie) :
    row.Catalogued .sparc64 ∧
      (Outcome.Related (AlikeBut Arch.windowCookie) (row.apply space old) (row.apply space old') ↔
        (row.returnAddress = Arch.windowCookie → old.cookie ≠ old'.cookie →
          ∃ error, row.apply space old = .error error)) ∧
      (row.returnAddress = Arch.windowCookie →
        ∀ new, row.apply space old = .ok new → new.ip = old.cookie + 8) := by
  have hcatalogued := catalogued_rowAt hrow
  refine ⟨hcatalogued, related_iff halike hcatalogued hplain hasks, fun hcolumn new hnew => ?_⟩
  have happly := apply_related halike hcatalogued hplain hasks
  generalize row.apply space old' = x' at happly
  rw [hnew] at happly
  cases happly with
  | ok hbeside =>
    have hip := hbeside.ip
    rw [if_pos hcolumn] at hip
    exact hip.1

/-- A function whose return address is kept in a register. -/
def keptMemory : Snapshot where
  endian := .little
  regions := [⟨0x100000, [0x14, 0, 0, 0, 0, 0, 0, 0, 1, 0x7a, 0x52, 0, 1, 0x78, 15, 1, 0, 0x0c, 14, 0,
    0, 0, 0, 0, 0x1c, 0, 0, 0, 0x1c, 0, 0, 0, 0, 0x40, 0, 0, 0, 0, 0, 0, 0, 1, 0, 0, 0, 0, 0, 0, 0,
    0x09, 15, 31, 0, 0, 0, 0]⟩]

/-- A row with one rule. -/
def oneRule (r : Register) (rule : Rule) : Row :=
  { empty 15 with
    cfa := .registerOffset 14 0
    rules := (Vector.replicate capacity .unused).setIfInBounds r rule }

theorem rule_oneRule {r : Register} (hr : r < capacity) (rule : Rule) (r' : Register) :
    (oneRule r rule).rule r' = if r' = r then rule else .unused := by
  by_cases h : r' = r
  · subst h
    simp [Row.rule, oneRule, hr]
  · have hne : ¬ r = r' := fun he => h he.symm
    have hunused := rule_empty 15 r'
    simp only [Row.rule, empty] at hunused
    simp [Row.rule, oneRule, hne, h, hunused]

def keptRow : Row := oneRule 15 (.inRegister 31)

/-- The registers of a frame with some cookie. -/
def cookieFile (cookie : Word) : RegisterFile .sparc64 :=
  ((RegisterFile.zero.update 14 0x7000).update 15 0x5000).update Arch.windowCookie cookie

theorem cookieFile_alike (cookie cookie' : Word) :
    (cookieFile cookie).AlikeBut Arch.windowCookie (cookieFile cookie') := by
  have hslot : Arch.sparc64.slot Arch.windowCookie = some (.integer 32) := rfl
  intro s hs
  have hne : s ≠ .integer 32 := fun h => hs (h ▸ hslot)
  unfold cookieFile
  rw [RegisterFile.content_update _ hslot rfl, RegisterFile.content_update _ hslot rfl,
    Function.update_of_ne hne, Function.update_of_ne hne]

theorem exists_rowAt {space : AddressSpace} {bases : Bases} {address pc : Word} {row : Row}
    (h : (FrameEntry.rowAt arch space bases address pc).map (·.1) = .ok row) :
    ∃ entry common, FrameEntry.rowAt arch space bases address pc = .ok (row, entry, common) := by
  obtain ⟨⟨_, entry, common⟩, hrow, rfl⟩ := Outcome.map_eq_ok.mp h
  exact ⟨entry, common, hrow⟩

theorem apply_beside_cookie_kept :
    ∃ row entry common,
      FrameEntry.rowAt .sparc64 keptMemory.space .unknown 0x100018 0x4010 =
        .ok (row, entry, common) ∧
      (∀ r n, row.rule r ≠ .inCfaDecrypted n) ∧
      (cookieFile 0x1110).AlikeBut Arch.windowCookie (cookieFile 0x2220) ∧
      ¬ row.Asks keptMemory.space (cookieFile 0x1110) Arch.windowCookie ∧
      row.Catalogued .sparc64 ∧
      Outcome.Related (AlikeBut Arch.windowCookie)
        (row.apply keptMemory.space (cookieFile 0x1110))
        (row.apply keptMemory.space (cookieFile 0x2220)) := by
  obtain ⟨entry, common, hrow⟩ := exists_rowAt (show (FrameEntry.rowAt .sparc64 keptMemory.space
    .unknown 0x100018 0x4010).map (·.1) = .ok keptRow by decide +kernel)
  have hplain : ∀ r n, keptRow.rule r ≠ .inCfaDecrypted n := by
    intro r n
    rw [keptRow, rule_oneRule (by decide)]
    split <;> nofun
  have hasks : ¬ keptRow.Asks keptMemory.space (cookieFile 0x1110) Arch.windowCookie := by
    rintro (⟨hcfa, -⟩ | ⟨hcode, -⟩)
    · cases hcfa
    · rw [keptRow, rule_oneRule (by decide)] at hcode
      split at hcode <;> rcases hcode with hcode | hcode <;> cases hcode
  have halike := cookieFile_alike 0x1110 0x2220
  obtain ⟨hcatalogued, hrelated, -⟩ := apply_beside_cookie hrow hplain halike hasks
  exact ⟨keptRow, entry, common, hrow, hplain, halike, hasks, hcatalogued,
    hrelated.mpr fun hcolumn => absurd hcolumn (by decide)⟩

/-- A function whose return address is in the column of the cookie. -/
def namedColumnMemory : Snapshot where
  endian := .little
  regions := [⟨0x100000, [0x14, 0, 0, 0, 0, 0, 0, 0, 3, 0x7a, 0x52, 0, 1, 0x78, 0x80, 0x20, 1, 0, 0x0c,
    14, 0, 0, 0, 0, 0x1c, 0, 0, 0, 0x1c, 0, 0, 0, 0, 0x40, 0, 0, 0, 0, 0, 0, 0, 1, 0, 0, 0, 0, 0, 0,
    0, 0, 0, 0, 0, 0, 0, 0]⟩]

def namedOperandMemory : Snapshot where
  endian := .little
  regions := [⟨0x100000, [0x14, 0, 0, 0, 0, 0, 0, 0, 1, 0x7a, 0x52, 0, 1, 0x78, 15, 1, 0, 0x0c, 14, 0,
    0, 0, 0, 0, 0x1c, 0, 0, 0, 0x1c, 0, 0, 0, 0, 0x40, 0, 0, 0, 0, 0, 0, 0, 1, 0, 0, 0, 0, 0, 0, 0,
    0x16, 16, 3, 0x90, 0x80, 0x20, 0]⟩]

def namedColumnRow : Row := { empty Arch.windowCookie with cfa := .registerOffset 14 0 }

def namedOperandRow : Row := oneRule 16 (.isExpression ⟨0x100034, 3⟩)

/-- The cookie comes back as an address to go on at, and as the value of a register. -/
theorem cookie_comes_back :
    (cookieFile 0x1110).AlikeBut Arch.windowCookie (cookieFile 0x2220) ∧
      (∃ row entry common,
        FrameEntry.rowAt .sparc64 namedColumnMemory.space .unknown 0x100018 0x4010 =
          .ok (row, entry, common) ∧
        (∀ r n, row.rule r ≠ .inCfaDecrypted n) ∧
        (row.apply namedColumnMemory.space (cookieFile 0x1110)).map (·.ip) = .ok 0x1118 ∧
        (row.apply namedColumnMemory.space (cookieFile 0x2220)).map (·.ip) = .ok 0x2228 ∧
        ¬ Outcome.Related (AlikeBut Arch.windowCookie)
          (row.apply namedColumnMemory.space (cookieFile 0x1110))
          (row.apply namedColumnMemory.space (cookieFile 0x2220))) ∧
      ∃ row entry common,
        FrameEntry.rowAt .sparc64 namedOperandMemory.space .unknown 0x100018 0x4010 =
          .ok (row, entry, common) ∧
        (∀ r n, row.rule r ≠ .inCfaDecrypted n) ∧
        (row.apply namedOperandMemory.space (cookieFile 0x1110)).map (·.get 16) = .ok (.ok 0x1110) ∧
        (row.apply namedOperandMemory.space (cookieFile 0x2220)).map (·.get 16) = .ok (.ok 0x2220) ∧
        ¬ Outcome.Related (AlikeBut Arch.windowCookie)
          (row.apply namedOperandMemory.space (cookieFile 0x1110))
          (row.apply namedOperandMemory.space (cookieFile 0x2220)) := by
  refine ⟨cookieFile_alike _ _, ?_, ?_⟩
  · obtain ⟨entry, common, hrow⟩ := exists_rowAt (show (FrameEntry.rowAt .sparc64
      namedColumnMemory.space .unknown 0x100018 0x4010).map (·.1) = .ok namedColumnRow by
        decide +kernel)
    have hfirst : (namedColumnRow.apply namedColumnMemory.space (cookieFile 0x1110)).map (·.ip) =
        .ok 0x1118 := by decide +kernel
    have hsecond : (namedColumnRow.apply namedColumnMemory.space (cookieFile 0x2220)).map (·.ip) =
        .ok 0x2228 := by decide +kernel
    refine ⟨namedColumnRow, entry, common, hrow, fun r n => ?_, hfirst, hsecond, fun h => ?_⟩
    · have hunused : namedColumnRow.rule r = .unused := rule_empty Arch.windowCookie r
      rw [hunused]
      nofun
    · have hsame := h.map_eq fun new new' halike => RegisterValue.word.inj (halike .ip nofun)
      rw [hfirst, hsecond] at hsame
      cases hsame
  · obtain ⟨entry, common, hrow⟩ := exists_rowAt (show (FrameEntry.rowAt .sparc64
      namedOperandMemory.space .unknown 0x100018 0x4010).map (·.1) = .ok namedOperandRow by
        decide +kernel)
    have hfirst : (namedOperandRow.apply namedOperandMemory.space (cookieFile 0x1110)).map
        (·.get 16) = .ok (.ok 0x1110) := by decide +kernel
    have hsecond : (namedOperandRow.apply namedOperandMemory.space (cookieFile 0x2220)).map
        (·.get 16) = .ok (.ok 0x2220) := by decide +kernel
    refine ⟨namedOperandRow, entry, common, hrow, fun r n => ?_, hfirst, hsecond, fun h => ?_⟩
    · rw [namedOperandRow, rule_oneRule (by decide)]
      split <;> nofun
    · have hother : 16 ≠ Arch.windowCookie := by decide
      have hsame := h.map_eq fun new new' halike => halike.get hother
      rw [hfirst, hsecond] at hsame
      cases hsame

end Row

end Unwinding
