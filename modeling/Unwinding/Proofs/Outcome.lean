import Unwinding.Restore

/-!
# When a computation succeeds

Most of the library runs in `Except`, and a computation there calls others
that fail with errors of their own. These are the equations that take such a
computation apart at its result, so that no other module unfolds the monad.
-/

namespace Unwinding

namespace Outcome

variable {ε ε' α β : Type}

instance decidableEq [DecidableEq ε] [DecidableEq α] : DecidableEq (Except ε α)
  | .ok a, .ok b => decidable_of_iff (a = b) (Except.ok.injEq a b ▸ Iff.rfl)
  | .error a, .error b => decidable_of_iff (a = b) (Except.error.injEq a b ▸ Iff.rfl)
  | .ok _, .error _ => .isFalse nofun
  | .error _, .ok _ => .isFalse nofun

@[simp] theorem bind_eq_ok {x : Except ε α} {rest : α → Except ε β} {b : β} :
    (x >>= rest) = .ok b ↔ ∃ a, x = .ok a ∧ rest a = .ok b := by
  cases x with
  | error error =>
    constructor
    · intro h
      cases h
    · rintro ⟨a, h, -⟩
      cases h
  | ok a =>
    constructor
    · intro h
      exact ⟨a, rfl, h⟩
    · rintro ⟨a', ha, h⟩
      cases ha
      exact h

theorem bind_pure_eq_map (x : Except ε α) (f : α → β) : (x >>= fun a => pure (f a)) = x.map f := by
  cases x <;> rfl

@[simp] theorem pure_eq_ok {a b : α} : (pure a : Except ε α) = .ok b ↔ a = b :=
  Except.ok.injEq a b ▸ Iff.rfl

@[simp] theorem map_eq_ok {x : Except ε α} {f : α → β} {b : β} :
    x.map f = .ok b ↔ ∃ a, x = .ok a ∧ f a = b := by
  rw [← bind_pure_eq_map, bind_eq_ok]
  exact exists_congr fun a => and_congr_right fun _ => pure_eq_ok

@[simp] theorem fmap_eq_ok {x : Except ε α} {f : α → β} {b : β} :
    f <$> x = .ok b ↔ ∃ a, x = .ok a ∧ f a = b := map_eq_ok

@[simp] theorem mapError_eq_ok {x : Except ε α} {f : ε → ε'} {a : α} :
    x.mapError f = .ok a ↔ x = .ok a := by
  cases x with
  | error error =>
    constructor
    · intro h
      cases h
    · intro h
      cases h
  | ok a' =>
    change (.ok a' : Except ε' α) = .ok a ↔ _
    rw [Except.ok.injEq, Except.ok.injEq]

@[simp] theorem throw_eq_ok {error : ε} {a : α} : (throw error : Except ε α) = .ok a ↔ False := by
  simp [throw, throwThe, MonadExceptOf.throw]

theorem mapM_of_ok {f : α → Except ε β} {g : α → β} {members : List α}
    (h : ∀ a ∈ members, f a = .ok (g a)) : members.mapM f = .ok (members.map g) := by
  induction members with
  | nil => rfl
  | cons a members ih =>
    have hrest := ih fun b hb => h b (List.mem_cons_of_mem _ hb)
    rw [List.mapM_cons, h a List.mem_cons_self, hrest]
    rfl

/-- Where all members that cannot be mapped fail alike, so does the list. -/
theorem mapM_of_error {f : α → Except ε β} {error : ε} {members : List α}
    (h : ∀ a ∈ members, f a = .error error ∨ ∃ b, f a = .ok b)
    (hfails : ∃ a ∈ members, f a = .error error) : members.mapM f = .error error := by
  induction members with
  | nil =>
    obtain ⟨a, ha, -⟩ := hfails
    exact absurd ha List.not_mem_nil
  | cons a members ih =>
    rw [List.mapM_cons]
    rcases h a List.mem_cons_self with herror | ⟨b, hb⟩
    · rw [herror]
      rfl
    · obtain ⟨later, hlater, hfails⟩ := hfails
      have hmem : later ∈ members := by
        rcases List.mem_cons.mp hlater with rfl | hmem
        · rw [hb] at hfails
          cases hfails
        · exact hmem
      rw [hb, ih (fun c hc => h c (List.mem_cons_of_mem _ hc)) ⟨later, hmem, hfails⟩]
      rfl

/-- Two computations fail alike, or end with related values. -/
inductive Related {α' : Type} (relation : α → α' → Prop) : Except ε α → Except ε α' → Prop
  | error {error : ε} : Related relation (.error error) (.error error)
  | ok {a : α} {a' : α'} : relation a a' → Related relation (.ok a) (.ok a')

theorem Related.bind {α' β' : Type} {relation : α → α' → Prop} {relation' : β → β' → Prop}
    {x : Except ε α} {x' : Except ε α'} {rest : α → Except ε β} {rest' : α' → Except ε β'}
    (h : Related relation x x')
    (hrest : ∀ a a', relation a a' → Related relation' (rest a) (rest' a')) :
    Related relation' (x >>= rest) (x' >>= rest') := by
  cases h with
  | error => exact .error
  | ok h => exact hrest _ _ h

theorem Related.bind_same {relation : β → β → Prop} {x : Except ε α} {rest rest' : α → Except ε β}
    (hrest : ∀ a, x = .ok a → Related relation (rest a) (rest' a)) :
    Related relation (x >>= rest) (x >>= rest') := by
  cases x with
  | error error => exact .error
  | ok a => exact hrest a rfl

theorem Related.mapError {α' : Type} {relation : α → α' → Prop} {x : Except ε α}
    {x' : Except ε α'} (h : Related relation x x') (f : ε → ε') :
    Related relation (x.mapError f) (x'.mapError f) := by
  cases h with
  | error => exact .error
  | ok h => exact .ok h

theorem Related.map_eq {α' : Type} {relation : α → α' → Prop} {x : Except ε α} {x' : Except ε α'}
    {f : α → β} {f' : α' → β} (h : Related relation x x') (hf : ∀ a a', relation a a' → f a = f' a') :
    x.map f = x'.map f' := by
  cases h with
  | error => rfl
  | ok h => exact congrArg Except.ok (hf _ _ h)

theorem Related.foldlM {σ σ' : Type} {relation : σ → σ' → Prop} {round : σ → α → Except ε σ}
    {round' : σ' → α → Except ε σ'} {members : List α} {state : σ} {state' : σ'}
    (h : relation state state')
    (hround : ∀ a ∈ members, ∀ state state', relation state state' →
      Related relation (round state a) (round' state' a)) :
    Related relation (members.foldlM round state) (members.foldlM round' state') := by
  induction members generalizing state state' with
  | nil => exact .ok h
  | cons a members ih =>
    rw [List.foldlM_cons, List.foldlM_cons]
    refine (hround a List.mem_cons_self _ _ h).bind fun _ _ hnext => ih hnext fun b hb => ?_
    exact hround b (List.mem_cons_of_mem a hb)

section Steps

variable {x : Except MemoryError α} {y : Except ExpressionError α} {z : Except RegisterError α}
  {u : Except CfiError α} {v : Except CompactError α} {a : α}

@[simp] theorem liftM_memory_eq_ok : (liftM x : Except StepError α) = .ok a ↔ x = .ok a :=
  mapError_eq_ok

@[simp] theorem liftM_expression_eq_ok : (liftM y : Except StepError α) = .ok a ↔ y = .ok a :=
  mapError_eq_ok

@[simp] theorem liftM_register_eq_ok : (liftM z : Except StepError α) = .ok a ↔ z = .ok a :=
  mapError_eq_ok

@[simp] theorem liftM_cfi_eq_ok : (liftM u : Except StepError α) = .ok a ↔ u = .ok a :=
  mapError_eq_ok

@[simp] theorem liftM_compact_eq_ok : (liftM v : Except StepError α) = .ok a ↔ v = .ok a :=
  mapError_eq_ok

end Steps

end Outcome

end Unwinding
