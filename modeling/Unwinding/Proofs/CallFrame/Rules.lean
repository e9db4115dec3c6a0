import Unwinding.Proofs.Outcome

/-!
# Rows that are given rules

Several rules are given to a row one after the other, which fails only if a
register has no column. Where a register is named more than once, its last rule
stands; one that is not named keeps the rule it had.
-/

namespace Unwinding.Row

variable {row row' : Row} {rules : List (Register × Rule)}

theorem setRules_exists (h : ∀ member ∈ rules, member.1 < capacity) (row : Row) :
    ∃ row', row.setRules rules = .ok row' := by
  induction rules generalizing row with
  | nil => exact ⟨row, rfl⟩
  | cons member rules ih =>
    have hfirst : row.setRule member.1 member.2 = .ok _ := dif_pos (h member List.mem_cons_self)
    obtain ⟨row', hrest⟩ := ih (fun later hlater => h later (List.mem_cons_of_mem _ hlater)) _
    exact ⟨row', Outcome.bind_eq_ok.mpr ⟨_, hfirst, hrest⟩⟩

theorem setRules_rest (h : row.setRules rules = .ok row') :
    ∃ values, row' = { row with rules := values } := by
  induction rules generalizing row with
  | nil =>
    cases h
    exact ⟨_, rfl⟩
  | cons member rules ih =>
    obtain ⟨middle, hfirst, hrest⟩ := Outcome.bind_eq_ok.mp h
    obtain ⟨values, rfl⟩ := ih hrest
    change row.setRule member.1 member.2 = .ok middle at hfirst
    unfold setRule at hfirst
    split at hfirst
    · cases hfirst
      exact ⟨values, rfl⟩
    · cases hfirst

theorem setRules_append {later : List (Register × Rule)} :
    row.setRules (rules ++ later) = .ok row' ↔
      ∃ middle, row.setRules rules = .ok middle ∧ middle.setRules later = .ok row' := by
  unfold setRules
  rw [List.foldlM_append, Outcome.bind_eq_ok]

theorem rule_setRules_of_not_mem {r : Register} (hr : r ∉ rules.map Prod.fst)
    (h : row.setRules rules = .ok row') : row'.rule r = row.rule r := by
  induction rules generalizing row with
  | nil =>
    cases h
    rfl
  | cons member rules ih =>
    obtain ⟨middle, hfirst, hrest⟩ := Outcome.bind_eq_ok.mp h
    rw [List.map_cons, List.mem_cons, not_or] at hr
    rw [ih hr.2 hrest, rule_setRule hfirst, if_neg hr.1]

theorem rule_setRules_last {before behind : List (Register × Rule)} {r : Register} {rule : Rule}
    (hr : r ∉ behind.map Prod.fst)
    (h : row.setRules (before ++ (r, rule) :: behind) = .ok row') : row'.rule r = rule := by
  obtain ⟨start, -, hset⟩ := setRules_append.mp h
  obtain ⟨middle, hfirst, hrest⟩ := Outcome.bind_eq_ok.mp hset
  rw [rule_setRules_of_not_mem hr hrest, rule_setRule hfirst, if_pos rfl]

theorem rule_setRules (hn : (rules.map Prod.fst).Nodup) (h : row.setRules rules = .ok row') :
    (∀ member ∈ rules, row'.rule member.1 = member.2) ∧
      ∀ r, r ∉ rules.map Prod.fst → row'.rule r = row.rule r := by
  refine ⟨?_, fun r hr => rule_setRules_of_not_mem hr h⟩
  rintro ⟨r, rule⟩ hmember
  obtain ⟨before, behind, rfl⟩ := List.append_of_mem hmember
  rw [List.map_append, List.map_cons, List.nodup_append] at hn
  exact rule_setRules_last (List.nodup_cons.mp hn.2.1).1 h

theorem ext_rule {first second : Row} (hrest : ∃ values, second = { first with rules := values })
    (hrule : ∀ r, first.rule r = second.rule r) : first = second := by
  obtain ⟨values, rfl⟩ := hrest
  have hvalues : first.rules = values := by
    refine Vector.ext fun r hr => ?_
    have hsame := hrule r
    unfold rule at hsame
    rwa [Vector.getElem?_eq_getElem hr, Vector.getElem?_eq_getElem hr] at hsame
  rw [← hvalues]

theorem setRules_perm {rules' : List (Register × Rule)} (hperm : rules.Perm rules')
    (hn : (rules.map Prod.fst).Nodup) (hcapacity : ∀ member ∈ rules, member.1 < capacity)
    (row : Row) : row.setRules rules = row.setRules rules' := by
  obtain ⟨first, hfirst⟩ := setRules_exists hcapacity row
  obtain ⟨second, hsecond⟩ :=
    setRules_exists (fun member hmember => hcapacity member (hperm.mem_iff.mpr hmember)) row
  have hkeys : (rules.map Prod.fst).Perm (rules'.map Prod.fst) := hperm.map Prod.fst
  obtain ⟨hruled, hunruled⟩ := rule_setRules hn hfirst
  obtain ⟨hruled', hunruled'⟩ := rule_setRules (hkeys.nodup_iff.mp hn) hsecond
  have hrest : ∃ values, second = { first with rules := values } := by
    obtain ⟨_, rfl⟩ := setRules_rest hfirst
    obtain ⟨values, rfl⟩ := setRules_rest hsecond
    exact ⟨values, rfl⟩
  rw [hfirst, hsecond, ext_rule hrest fun r => ?_]
  by_cases hr : r ∈ rules.map Prod.fst
  · obtain ⟨member, hmember, rfl⟩ := List.mem_map.mp hr
    rw [hruled member hmember, hruled' member (hperm.mem_iff.mp hmember)]
  · rw [hunruled r hr, hunruled' r fun hr' => hr (hkeys.mem_iff.mpr hr')]

theorem setRule_of_lt {r : Register} (hr : r < capacity) (row : Row) (rule : Rule) :
    row.setRule r rule = .ok { row with rules := row.rules.set r rule hr } := dif_pos hr

/-- A rule is without effect if the register is given another one later. -/
theorem setRules_repeated {r : Register} (hr : r < capacity) (rule : Rule)
    (hmem : r ∈ rules.map Prod.fst) (row : Row) :
    row.setRules ((r, rule) :: rules) = row.setRules rules := by
  induction rules generalizing row with
  | nil => exact absurd hmem List.not_mem_nil
  | cons member rules ih =>
    obtain ⟨r', rule'⟩ := member
    change (row.setRule r rule >>= fun row => row.setRule r' rule' >>= (setRules · rules)) =
      (row.setRule r' rule' >>= (setRules · rules))
    rw [setRule_of_lt hr]
    change ({ row with rules := row.rules.set r rule hr }.setRule r' rule' >>= _) = _
    by_cases hr' : r' < capacity
    · rw [setRule_of_lt hr', setRule_of_lt hr']
      change setRules { row with rules := (row.rules.set r rule hr).set r' rule' hr' } rules =
        setRules { row with rules := row.rules.set r' rule' hr' } rules
      by_cases hsame : r = r'
      · subst hsame
        rw [Vector.set_set]
      · have hlater : r ∈ rules.map Prod.fst := by
          rw [List.map_cons] at hmem
          exact (List.mem_cons.mp hmem).resolve_left hsame
        rw [Vector.set_comm _ _ hsame, ← ih hlater { row with rules := row.rules.set r' rule' hr' }]
        change _ = (setRule _ r rule >>= (setRules · rules))
        rw [setRule_of_lt hr]
        rfl
    · unfold setRule
      rw [dif_neg hr', dif_neg hr']

end Unwinding.Row
