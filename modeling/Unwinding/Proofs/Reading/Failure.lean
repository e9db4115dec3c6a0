import Unwinding.Proofs.Outcome
import Unwinding.Proofs.Reading.Success

/-!
# When a decoder fails

A sequence fails where the first of its parts does. These are the equations that trace an
error back to the part it comes from; errors of memory are the only ones that decoders of
plain values have.
-/

namespace Unwinding

namespace Outcome

variable {ε α β : Type} {error error' : ε}

@[simp] theorem bind_eq_error {x : Except ε α} {rest : α → Except ε β} :
    (x >>= rest) = .error error ↔ x = .error error ∨ ∃ a, x = .ok a ∧ rest a = .error error := by
  cases x with
  | error other =>
    change Except.error other = _ ↔ _
    simp
  | ok a =>
    change rest a = _ ↔ _
    simp

@[simp] theorem pure_eq_error {a : α} : (pure a : Except ε α) = .error error ↔ False := by
  change Except.ok a = _ ↔ _
  simp

@[simp] theorem throw_eq_error :
    (throw error' : Except ε α) = .error error ↔ error' = error := by
  change Except.error error' = _ ↔ _
  simp

@[simp] theorem map_eq_error {f : α → β} {x : Except ε α} :
    x.map f = .error error ↔ x = .error error := by
  cases x <;> simp [Except.map]

end Outcome

namespace Reading

variable {ε α β : Type} {space : AddressSpace} {span span' : Span} {error error' : ε}

@[simp] theorem bind_eq_error {read : Reading ε α} {rest : α → Reading ε β} :
    (read >>= rest) space span = .error error span' ↔
      read space span = .error error span' ∨
        ∃ a middle, read space span = .ok a middle ∧ rest a space middle = .error error span' := by
  change EStateM.bind (read space) (fun a => rest a space) span = _ ↔ _
  unfold EStateM.bind
  cases read space span <;> simp [and_assoc]

@[simp] theorem pure_eq_error {a : α} :
    (pure a : Reading ε α) space span = .error error span' ↔ False := by
  change EStateM.Result.ok a span = _ ↔ _
  simp

@[simp] theorem map_eq_error {f : α → β} {read : Reading ε α} :
    (f <$> read) space span = .error error span' ↔ read space span = .error error span' := by
  rw [← bind_pure_comp, bind_eq_error]
  simp

@[simp] theorem throw_eq_error :
    (throw error' : Reading ε α) space span = .error error span' ↔
      error' = error ∧ span = span' := by
  change EStateM.Result.error error' span = _ ↔ _
  simp

@[simp] theorem pos_eq_error : (pos : Reading ε Word) space span = .error error span' ↔ False := by
  change EStateM.Result.ok span.pos span = _ ↔ _
  simp

@[simp] theorem fetch_eq_error {f : AddressSpace → Except ε α} :
    fetch f space span = .error error span' ↔ f space = .error error ∧ span = span' := by
  unfold fetch
  cases f space <;> simp

@[simp] theorem liftM_eq_error {read : Reading MemoryError α} {error : CfiError} :
    (liftM read : Reading CfiError α) space span = .error error span' ↔
      ∃ cause, read space span = .error cause span' ∧ .memory cause = error := by
  change EStateM.adaptExcept CfiError.memory (read space) span = _ ↔ _
  unfold EStateM.adaptExcept
  cases read space span <;> simp [and_assoc, and_comm]

end Reading

end Unwinding
