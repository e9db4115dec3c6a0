import Unwinding.Memory.Snapshot
import Unwinding.Proofs.Expression.Simulation

/-!
# What an expression is worth

A run of the array machine keeps step with the run of the list machine as long
as the lists fit the array. How a run ends is read off the list machine: at the
end of the code, at a value too many, at an operation too many, or with the
error of an operation.
-/

namespace Unwinding

open ValueStack (capacity)
open StackMachine (budget Setting Shows Own)

namespace StackMachine

variable {arch : Arch} (setting : Setting arch)

/-- One operation. -/
def next (machine : StackMachine) : Except ExpressionError StackMachine :=
  (·.2) <$> (step setting).run machine

def Over (machine : StackMachine) : Prop := setting.code.stop ≤ machine.pos

/-- The states of the run that an expression is evaluated with. -/
def Reached (initial : Word) (n : Nat) (machine : StackMachine) : Prop :=
  ∃ stack, ValueStack.empty.push initial = some stack ∧
    Reaches (next setting) (Over setting) ⟨setting.code.start, stack⟩ n machine

end StackMachine

namespace ListMachine

variable {arch : Arch} (setting : Setting arch)

/-- The states of the machine on lists for the same expression. -/
def Reached (initial : Word) : Nat → ListMachine → Prop :=
  Reaches (next setting) (fun list => list.pos = setting.code.stop)
    ⟨setting.code.start, [initial]⟩

/-- Up to its `n`-th state the run never has more values than the array holds. -/
def Fits (initial : Word) (n : Nat) : Prop :=
  ∀ i ≤ n, ∀ list, Reached setting initial i list → list.stack.length ≤ capacity

variable {setting} {initial : Word} {n : Nat} {list : ListMachine}

theorem Fits.le {m : Nat} (h : Fits setting initial n) (hm : m ≤ n) : Fits setting initial m :=
  fun i hi => h i (Nat.le_trans hi hm)

theorem fits_zero : Fits setting initial 0 := by
  intro i hi list hreached
  obtain rfl := Nat.le_zero.mp hi
  cases hreached
  exact (by decide : 1 ≤ capacity)

theorem Fits.succ (h : Fits setting initial n) (hreached : Reached setting initial (n + 1) list)
    (hlength : list.stack.length ≤ capacity) : Fits setting initial (n + 1) := by
  intro i hi list' hreached'
  rcases Nat.lt_or_eq_of_le hi with hlt | rfl
  · exact h i (Nat.le_of_lt_succ hlt) list' hreached'
  · rw [hreached'.unique hreached]
    exact hlength

end ListMachine

namespace StackMachine

variable {arch : Arch} {setting : Setting arch} {initial : Word} {n left : Nat}
  {machine machine' : StackMachine} {list : ListMachine}

section Run

theorem run_over (h : Over setting machine) (left : Nat) :
    run setting left machine = .ok machine := by
  cases left <;> exact if_pos h

theorem run_zero (h : ¬ Over setting machine) : run setting 0 machine = .error .tooManySteps :=
  if_neg h

theorem run_succ (h : ¬ Over setting machine) (left : Nat) :
    run setting (left + 1) machine = next setting machine >>= run setting left := by
  refine (if_neg h).trans ?_
  unfold next
  cases (step setting).run machine <;> rfl

theorem run_of_reaches (h : Reaches (next setting) (Over setting) machine n machine')
    (left : Nat) : run setting (n + left) machine = run setting left machine' := by
  induction h generalizing left with
  | start => rw [Nat.zero_add]
  | step hreaches hover hstep ih =>
    rw [Nat.add_assoc, Nat.add_comm 1 left, ih, run_succ hover, hstep]
    rfl

theorem run_cases (left : Nat) (machine : StackMachine) :
    (∃ n ≤ left, ∃ last, Reaches (next setting) (Over setting) machine n last ∧
      Over setting last ∧ run setting left machine = .ok last) ∨
    (∃ last, Reaches (next setting) (Over setting) machine left last ∧
      ¬ Over setting last ∧ run setting left machine = .error .tooManySteps) ∨
    ∃ n < left, ∃ last error, Reaches (next setting) (Over setting) machine n last ∧
      ¬ Over setting last ∧ next setting last = .error error ∧
      run setting left machine = .error error := by
  induction left generalizing machine with
  | zero =>
    by_cases hover : Over setting machine
    · exact .inl ⟨0, Nat.le_refl 0, machine, .start, hover, run_over hover 0⟩
    · exact .inr (.inl ⟨machine, .start, hover, run_zero hover⟩)
  | succ left ih =>
    by_cases hover : Over setting machine
    · exact .inl ⟨0, Nat.zero_le _, machine, .start, hover, run_over hover _⟩
    · rw [run_succ hover]
      cases hnext : next setting machine with
      | error error =>
        exact .inr (.inr ⟨0, Nat.succ_pos left, machine, error, .start, hover, hnext, rfl⟩)
      | ok machine' =>
        rcases ih machine' with ⟨n, hn, last, hreaches, hlast⟩ | ⟨last, hreaches, hlast⟩ |
          ⟨n, hn, last, error, hreaches, hlast⟩
        · exact .inl ⟨n + 1, Nat.succ_le_succ hn, last, hreaches.first hover hnext, hlast⟩
        · exact .inr (.inl ⟨last, hreaches.first hover hnext, hlast⟩)
        · exact .inr (.inr
            ⟨n + 1, Nat.succ_lt_succ hn, last, error, hreaches.first hover hnext, hlast⟩)

end Run

section Lockstep

theorem Shows.over_iff (h : Shows setting machine list) :
    Over setting machine ↔ list.pos = setting.code.stop := by
  unfold Over
  rw [h.pos]
  exact ⟨fun hover => UInt64.le_antisymm h.inside.2 hover, fun hend => hend ▸ UInt64.le_refl _⟩

/-- What one operation does to both machines. -/
theorem next_follows (h : Shows setting machine list) :
    (∃ error, ListMachine.next setting list = .error error ∧
      next setting machine = .error error ∧ Own error) ∨
    (∃ list' machine', ListMachine.next setting list = .ok list' ∧
      next setting machine = .ok machine' ∧ Shows setting machine' list') ∨
    ∃ list', ListMachine.next setting list = .ok list' ∧ list'.stack.length = capacity + 1 ∧
      next setting machine = .error .stackOverflow := by
  have hstep := step_follows h
  unfold next
  cases hlist : ListMachine.next setting list with
  | error error =>
    rw [hlist] at hstep
    obtain ⟨hmachine, hown⟩ := hstep
    exact .inl ⟨error, rfl, by rw [hmachine]; rfl, hown⟩
  | ok list' =>
    rw [hlist] at hstep
    rcases hstep with ⟨machine', hmachine, hshows⟩ | ⟨hlength, hmachine⟩
    · exact .inr (.inl ⟨list', machine', rfl, by rw [hmachine]; rfl, hshows⟩)
    · exact .inr (.inr ⟨list', rfl, hlength, by rw [hmachine]; rfl⟩)

variable (hfits : setting.code.start ≤ setting.code.stop)

include hfits

theorem shows_start {stack : ValueStack} (hstack : ValueStack.empty.push initial = some stack) :
    Shows setting ⟨setting.code.start, stack⟩ ⟨setting.code.start, [initial]⟩ where
  pos := rfl
  values := by rw [ValueStack.values_of_push hstack, ValueStack.values_empty]
  inside := ⟨UInt64.le_refl _, hfits⟩

/-- The list machine keeps step with the array machine. -/
theorem Reached.shown (h : Reached setting initial n machine) :
    ∃ list, ListMachine.Reached setting initial n list ∧
      ListMachine.Fits setting initial n ∧ Shows setting machine list := by
  obtain ⟨stack, hstack, h⟩ := h
  induction h with
  | start => exact ⟨_, .start, ListMachine.fits_zero, shows_start hfits hstack⟩
  | step _ hover hnext ih =>
    obtain ⟨list, hreached, hroom, hshows⟩ := ih
    rcases next_follows hshows with ⟨error, -, herror, -⟩ |
      ⟨list', machine', hlist, hmachine, hshows'⟩ | ⟨list', -, -, herror⟩
    · cases hnext.symm.trans herror
    · cases hnext.symm.trans hmachine
      have hreached' : ListMachine.Reached setting initial _ list' :=
        .step hreached (fun hend => hover (hshows.over_iff.mpr hend)) hlist
      exact ⟨list', hreached', hroom.succ hreached' hshows'.length_le, hshows'⟩
    · cases hnext.symm.trans herror

theorem shows_of_reached (h : ListMachine.Reached setting initial n list)
    (hroom : ListMachine.Fits setting initial n) :
    ∃ machine, Reached setting initial n machine ∧ Shows setting machine list := by
  unfold ListMachine.Reached at h
  induction h with
  | start =>
    obtain ⟨stack, hstack⟩ : ∃ stack, ValueStack.empty.push initial = some stack := ⟨_, rfl⟩
    exact ⟨_, ⟨stack, hstack, .start⟩, shows_start hfits hstack⟩
  | step hreached hover hnext ih =>
    obtain ⟨machine, ⟨stack, hstack, hmachine⟩, hshows⟩ := ih (hroom.le (Nat.le_succ _))
    have hover' : ¬ Over setting machine := fun h => hover (hshows.over_iff.mp h)
    rcases next_follows hshows with ⟨error, herror, -⟩ |
      ⟨list', machine', hlist, hmachine', hshows'⟩ | ⟨list', hlist, hlength, -⟩
    · cases hnext.symm.trans herror
    · cases hnext.symm.trans hlist
      exact ⟨machine', ⟨stack, hstack, .step hmachine hover' hmachine'⟩, hshows'⟩
    · cases hnext.symm.trans hlist
      have hle := hroom _ (Nat.le_refl _) _ (.step hreached hover hnext)
      omega

end Lockstep

end StackMachine

namespace Expression

variable {arch : Arch} {code : Expression} {space : AddressSpace} {file : RegisterFile arch}
  {initial : Word} {n : Nat} {list : ListMachine}

theorem evaluate_eq {machine : StackMachine} (hn : n ≤ budget)
    (h : StackMachine.Reached ⟨space, file, code⟩ initial n machine) :
    code.evaluate space file initial =
      match StackMachine.run ⟨space, file, code⟩ (budget - n) machine with
      | .ok last =>
        match last.stack.pop with
        | some (value, _) => .ok value
        | none => .error .emptyStack
      | .error error => .error error := by
  obtain ⟨stack, hstack, hreaches⟩ := h
  have hrun := StackMachine.run_of_reaches hreaches (budget - n)
  rw [Nat.add_sub_cancel' hn] at hrun
  unfold evaluate
  rw [hstack]
  dsimp only
  rw [hrun]
  cases StackMachine.run ⟨space, file, code⟩ (budget - n) machine with
  | error error => rfl
  | ok last =>
    dsimp only
    cases hpop : last.stack.pop <;>
    · change (match last.stack.pop with
        | some (value, _) => pure value
        | none => throw ExpressionError.emptyStack) = _
      rw [hpop]
      rfl

theorem evaluate_of_next {machine : StackMachine} {error : ExpressionError}
    (h : StackMachine.Reached ⟨space, file, code⟩ initial n machine)
    (hshows : Shows ⟨space, file, code⟩ machine list) (hn : n < budget)
    (hend : list.pos ≠ code.stop)
    (hnext : StackMachine.next ⟨space, file, code⟩ machine = .error error) :
    code.evaluate space file initial = .error error := by
  have hover := fun hover => hend (hshows.over_iff.mp hover)
  obtain ⟨left, hleft⟩ : ∃ left, budget - n = left + 1 := ⟨budget - n - 1, by omega⟩
  rw [evaluate_eq (Nat.le_of_lt hn) h, hleft, StackMachine.run_succ hover, hnext]
  rfl

section Fates

variable (hfits : code.start ≤ code.stop)

include hfits

theorem evaluate_of_end (h : ListMachine.Reached ⟨space, file, code⟩ initial n list)
    (hroom : ListMachine.Fits ⟨space, file, code⟩ initial n) (hn : n ≤ budget)
    (hend : list.pos = code.stop) :
    code.evaluate space file initial =
      match list.stack with
      | value :: _ => .ok value
      | [] => .error .emptyStack := by
  obtain ⟨machine, hreached, hshows⟩ := StackMachine.shows_of_reached hfits h hroom
  rw [evaluate_eq hn hreached, StackMachine.run_over (hshows.over_iff.mpr hend)]
  dsimp only
  cases hpop : machine.stack.pop with
  | none =>
    rw [← hshows.values, ValueStack.pop_eq_none.mp hpop]
  | some popped =>
    rw [← hshows.values, ValueStack.values_of_pop hpop]

theorem evaluate_of_busy (h : ListMachine.Reached ⟨space, file, code⟩ initial budget list)
    (hroom : ListMachine.Fits ⟨space, file, code⟩ initial budget) (hend : list.pos ≠ code.stop) :
    code.evaluate space file initial = .error .tooManySteps := by
  obtain ⟨machine, hreached, hshows⟩ := StackMachine.shows_of_reached hfits h hroom
  have hover := fun hover => hend (hshows.over_iff.mp hover)
  rw [evaluate_eq (Nat.le_refl _) hreached, Nat.sub_self, StackMachine.run_zero hover]

theorem evaluate_of_error {error : ExpressionError}
    (h : ListMachine.Reached ⟨space, file, code⟩ initial n list)
    (hroom : ListMachine.Fits ⟨space, file, code⟩ initial n) (hn : n < budget)
    (hend : list.pos ≠ code.stop)
    (hnext : ListMachine.next ⟨space, file, code⟩ list = .error error) :
    code.evaluate space file initial = .error error := by
  obtain ⟨machine, hreached, hshows⟩ := StackMachine.shows_of_reached hfits h hroom
  rcases StackMachine.next_follows hshows with ⟨error', hlist, hmachine, -⟩ |
    ⟨list', -, hlist, -⟩ | ⟨list', hlist, -⟩
  · cases hnext.symm.trans hlist
    exact evaluate_of_next hreached hshows hn hend hmachine
  · cases hnext.symm.trans hlist
  · cases hnext.symm.trans hlist

theorem evaluate_of_overflow (h : ListMachine.Reached ⟨space, file, code⟩ initial (n + 1) list)
    (hroom : ListMachine.Fits ⟨space, file, code⟩ initial n) (hn : n < budget)
    (hlength : list.stack.length = capacity + 1) :
    code.evaluate space file initial = .error .stackOverflow := by
  obtain ⟨before, hbefore, hend, hnext⟩ := h.before
  obtain ⟨machine, hreached, hshows⟩ := StackMachine.shows_of_reached hfits hbefore hroom
  rcases StackMachine.next_follows hshows with ⟨error', hlist, -⟩ |
    ⟨list', machine', hlist, -, hshows'⟩ | ⟨list', -, -, hmachine⟩
  · cases hnext.symm.trans hlist
  · cases hnext.symm.trans hlist
    have hle := hshows'.length_le
    omega
  · exact evaluate_of_next hreached hshows hn hend hmachine

end Fates

/-- The ways in which the run on lists goes, each with its result. -/
inductive Fate (code : Expression) (space : AddressSpace) (file : RegisterFile arch)
    (initial : Word) : Except ExpressionError Word → Prop
  | value {n : Nat} {list : ListMachine} {value : Word} {rest : List Word} :
      n ≤ budget → ListMachine.Reached ⟨space, file, code⟩ initial n list →
      ListMachine.Fits ⟨space, file, code⟩ initial n → list.pos = code.stop →
      list.stack = value :: rest → Fate code space file initial (.ok value)
  | emptyStack {n : Nat} {list : ListMachine} :
      n ≤ budget → ListMachine.Reached ⟨space, file, code⟩ initial n list →
      ListMachine.Fits ⟨space, file, code⟩ initial n → list.pos = code.stop →
      list.stack = [] → Fate code space file initial (.error .emptyStack)
  | tooManySteps {list : ListMachine} :
      ListMachine.Reached ⟨space, file, code⟩ initial budget list →
      ListMachine.Fits ⟨space, file, code⟩ initial budget → list.pos ≠ code.stop →
      Fate code space file initial (.error .tooManySteps)
  | stackOverflow {n : Nat} {list : ListMachine} :
      n < budget → ListMachine.Reached ⟨space, file, code⟩ initial (n + 1) list →
      ListMachine.Fits ⟨space, file, code⟩ initial n → list.stack.length = capacity + 1 →
      Fate code space file initial (.error .stackOverflow)
  | failure {n : Nat} {list : ListMachine} {error : ExpressionError} :
      n < budget → ListMachine.Reached ⟨space, file, code⟩ initial n list →
      ListMachine.Fits ⟨space, file, code⟩ initial n → list.pos ≠ code.stop →
      ListMachine.next ⟨space, file, code⟩ list = .error error → Own error →
      Fate code space file initial (.error error)

theorem Fate.evaluate_eq (hfits : code.start ≤ code.stop) {result : Except ExpressionError Word}
    (h : Fate code space file initial result) : code.evaluate space file initial = result := by
  cases h with
  | value hn hreached hroom hend hstack =>
    rw [evaluate_of_end hfits hreached hroom hn hend, hstack]
  | emptyStack hn hreached hroom hend hstack =>
    rw [evaluate_of_end hfits hreached hroom hn hend, hstack]
  | tooManySteps hreached hroom hend => exact evaluate_of_busy hfits hreached hroom hend
  | stackOverflow hn hreached hroom hlength =>
    exact evaluate_of_overflow hfits hreached hroom hn hlength
  | failure hn hreached hroom hend hnext _ =>
    exact evaluate_of_error hfits hreached hroom hn hend hnext

theorem exists_fate (hfits : code.start ≤ code.stop) (space : AddressSpace)
    (file : RegisterFile arch) (initial : Word) :
    ∃ result, Fate code space file initial result := by
  let setting : Setting arch := ⟨space, file, code⟩
  obtain ⟨stack, hstack⟩ : ∃ stack, ValueStack.empty.push initial = some stack := ⟨_, rfl⟩
  have hshown {n : Nat} {machine : StackMachine}
      (h : Reaches (StackMachine.next setting) (StackMachine.Over setting) ⟨code.start, stack⟩ n
        machine) :
      ∃ list, ListMachine.Reached setting initial n list ∧ ListMachine.Fits setting initial n ∧
        Shows setting machine list := StackMachine.Reached.shown hfits ⟨stack, hstack, h⟩
  rcases StackMachine.run_cases budget ⟨code.start, stack⟩ with
    ⟨n, hn, last, hreaches, hover, -⟩ | ⟨last, hreaches, hover, -⟩ |
    ⟨n, hn, last, error, hreaches, hover, hnext, -⟩
  · obtain ⟨list, hreached, hroom, hshows⟩ := hshown hreaches
    have hend := hshows.over_iff.mp hover
    cases hvalues : list.stack with
    | nil => exact ⟨_, .emptyStack hn hreached hroom hend hvalues⟩
    | cons value rest => exact ⟨_, .value hn hreached hroom hend hvalues⟩
  · obtain ⟨list, hreached, hroom, hshows⟩ := hshown hreaches
    exact ⟨_, .tooManySteps hreached hroom fun hend => hover (hshows.over_iff.mpr hend)⟩
  · obtain ⟨list, hreached, hroom, hshows⟩ := hshown hreaches
    have hend : list.pos ≠ code.stop := fun hend => hover (hshows.over_iff.mpr hend)
    rcases StackMachine.next_follows hshows with ⟨error', hlist, -, hown⟩ |
      ⟨list', machine', -, hmachine, -⟩ | ⟨list', hlist, hlength, -⟩
    · exact ⟨_, .failure hn hreached hroom hend hlist hown⟩
    · cases hnext.symm.trans hmachine
    · exact ⟨_, .stackOverflow hn (.step hreached hend hlist) hroom hlength⟩

/-- An evaluation ends as the run of the list machine goes, which has no memory
but the code to take instructions from. On the way both machines are at the same
place in the code, with the same values. -/
structure Refines (code : Expression) (space : AddressSpace) (file : RegisterFile arch)
    (initial : Word) : Prop where
  value : ∀ value, code.evaluate space file initial = .ok value ↔
    ∃ n ≤ budget, ∃ list, ListMachine.Reached ⟨space, file, code⟩ initial n list ∧
      list.pos = code.stop ∧ list.stack.head? = some value ∧
      ListMachine.Fits ⟨space, file, code⟩ initial n
  emptyStack : code.evaluate space file initial = .error .emptyStack ↔
    ∃ n ≤ budget, ∃ list, ListMachine.Reached ⟨space, file, code⟩ initial n list ∧
      list.pos = code.stop ∧ list.stack = [] ∧ ListMachine.Fits ⟨space, file, code⟩ initial n
  stackOverflow : code.evaluate space file initial = .error .stackOverflow ↔
    ∃ n < budget, ∃ list, ListMachine.Reached ⟨space, file, code⟩ initial (n + 1) list ∧
      list.stack.length = capacity + 1 ∧ ListMachine.Fits ⟨space, file, code⟩ initial n
  tooManySteps : code.evaluate space file initial = .error .tooManySteps ↔
    ∃ list, ListMachine.Reached ⟨space, file, code⟩ initial budget list ∧
      list.pos ≠ code.stop ∧ ListMachine.Fits ⟨space, file, code⟩ initial budget
  /-- Any other error is that of the operation that would come next. -/
  failure : ∀ error, Own error → (code.evaluate space file initial = .error error ↔
    ∃ n < budget, ∃ list, ListMachine.Reached ⟨space, file, code⟩ initial n list ∧
      list.pos ≠ code.stop ∧ ListMachine.next ⟨space, file, code⟩ list = .error error ∧
      ListMachine.Fits ⟨space, file, code⟩ initial n)
  shown : ∀ n machine, StackMachine.Reached ⟨space, file, code⟩ initial n machine →
    ∃ list, ListMachine.Reached ⟨space, file, code⟩ initial n list ∧
      ListMachine.Fits ⟨space, file, code⟩ initial n ∧
      machine.pos = list.pos ∧ machine.stack.values = list.stack
  shows : ∀ n list, ListMachine.Reached ⟨space, file, code⟩ initial n list →
    ListMachine.Fits ⟨space, file, code⟩ initial n →
    ∃ machine, StackMachine.Reached ⟨space, file, code⟩ initial n machine ∧
      machine.pos = list.pos ∧ machine.stack.values = list.stack
  inside : ∀ n machine, StackMachine.Reached ⟨space, file, code⟩ initial n machine →
    code.start ≤ machine.pos ∧ machine.pos ≤ code.stop

theorem start_le_stop (hsize : code.start.toNat + code.length.toNat < UInt64.size) :
    code.start ≤ code.stop := by
  have hstop : code.stop.toNat = code.start.toNat + code.length.toNat := by
    unfold stop
    rw [UInt64.toNat_add]
    exact Nat.mod_eq_of_lt hsize
  rw [UInt64.le_iff_toNat_le, hstop]
  exact Nat.le_add_right _ _

/-- The machine with the array refines the one with lists. -/
theorem evaluate_refines (hsize : code.start.toNat + code.length.toNat < UInt64.size)
    (space : AddressSpace) (file : RegisterFile arch) (initial : Word) :
    code.Refines space file initial := by
  have hfits := start_le_stop hsize
  have hfate {result : Except ExpressionError Word}
      (h : code.evaluate space file initial = result) : Fate code space file initial result := by
    obtain ⟨result', hresult⟩ := exists_fate hfits space file initial
    rw [← h, hresult.evaluate_eq hfits]
    exact hresult
  constructor
  case value =>
    refine fun value => ⟨fun h => ?_, ?_⟩
    · cases hfate h with
      | value hn hreached hroom hend hstack =>
        exact ⟨_, hn, _, hreached, hend, by rw [hstack]; rfl, hroom⟩
    · rintro ⟨n, hn, list, hreached, hend, hhead, hroom⟩
      obtain ⟨rest, hstack⟩ := List.head?_eq_some_iff.mp hhead
      exact (Fate.value hn hreached hroom hend hstack).evaluate_eq hfits
  case emptyStack =>
    refine ⟨fun h => ?_, ?_⟩
    · cases hfate h with
      | emptyStack hn hreached hroom hend hstack =>
        exact ⟨_, hn, _, hreached, hend, hstack, hroom⟩
      | failure _ _ _ _ _ hown => exact absurd rfl hown.2.1
    · rintro ⟨n, hn, list, hreached, hend, hstack, hroom⟩
      exact (Fate.emptyStack hn hreached hroom hend hstack).evaluate_eq hfits
  case stackOverflow =>
    refine ⟨fun h => ?_, ?_⟩
    · cases hfate h with
      | stackOverflow hn hreached hroom hlength => exact ⟨_, hn, _, hreached, hlength, hroom⟩
      | failure _ _ _ _ _ hown => exact absurd rfl hown.1
    · rintro ⟨n, hn, list, hreached, hlength, hroom⟩
      exact (Fate.stackOverflow hn hreached hroom hlength).evaluate_eq hfits
  case tooManySteps =>
    refine ⟨fun h => ?_, ?_⟩
    · cases hfate h with
      | tooManySteps hreached hroom hend => exact ⟨_, hreached, hend, hroom⟩
      | failure _ _ _ _ _ hown => exact absurd rfl hown.2.2
    · rintro ⟨list, hreached, hend, hroom⟩
      exact (Fate.tooManySteps hreached hroom hend).evaluate_eq hfits
  case failure =>
    refine fun error hown => ⟨fun h => ?_, ?_⟩
    · cases hfate h with
      | emptyStack => exact absurd rfl hown.2.1
      | tooManySteps => exact absurd rfl hown.2.2
      | stackOverflow => exact absurd rfl hown.1
      | failure hn hreached hroom hend hnext => exact ⟨_, hn, _, hreached, hend, hnext, hroom⟩
    · rintro ⟨n, hn, list, hreached, hend, hnext, hroom⟩
      exact (Fate.failure hn hreached hroom hend hnext hown).evaluate_eq hfits
  case shown =>
    intro n machine hreached
    obtain ⟨list, hlist, hroom, hshows⟩ := StackMachine.Reached.shown hfits hreached
    exact ⟨list, hlist, hroom, hshows.pos, hshows.values⟩
  case shows =>
    intro n list hreached hroom
    obtain ⟨machine, hmachine, hshows⟩ := StackMachine.shows_of_reached hfits hreached hroom
    exact ⟨machine, hmachine, hshows.pos, hshows.values⟩
  case inside =>
    intro n machine hreached
    obtain ⟨list, -, -, hshows⟩ := StackMachine.Reached.shown hfits hreached
    rw [hshows.pos]
    exact hshows.inside

/-- A branch over one operation, to another one that pushes a nine. -/
def branchMemory : Snapshot where
  endian := .little
  regions := [⟨0x1000, [0x31, 0x28, 1, 0, 0x35, 0x39]⟩]

theorem evaluate_refines_branch :
    (0x1000 : Word).toNat + (6 : Word).toNat < UInt64.size ∧
      Refines ⟨0x1000, 6⟩ branchMemory.space (RegisterFile.zero : RegisterFile .x86_64) 0 ∧
      evaluate ⟨0x1000, 6⟩ branchMemory.space (RegisterFile.zero : RegisterFile .x86_64) 0 =
        .ok 9 := by
  have hsize : (0x1000 : Word).toNat + (6 : Word).toNat < UInt64.size := by decide
  have hvalue : evaluate ⟨0x1000, 6⟩ branchMemory.space (RegisterFile.zero : RegisterFile .x86_64)
      0 = .ok 9 := by decide +kernel
  exact ⟨hsize, evaluate_refines hsize _ _ _, hvalue⟩

end Expression

end Unwinding
