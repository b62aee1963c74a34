import ChatHistory.Fault

/-!
# Operations that may fail

`simp` runs an operation by the laws of this module: if a step succeeds, the operation goes on with
its value (`ok_bind`), and if a step fails, the operation stops there (`error_bind`).  An operation
that succeeded is taken apart by `bind_eq_ok_iff`.
-/

namespace ChatHistory

variable {ε α β : Type}

@[simp] theorem ok_bind (value : α) (next : α → Except ε β) :
    (Except.ok value >>= next) = next value :=
  rfl

@[simp] theorem error_bind (fault : ε) (next : α → Except ε β) :
    (Except.error fault >>= next) = .error fault :=
  rfl

@[simp] theorem pure_eq_ok (value : α) : (pure value : Except ε α) = .ok value :=
  rfl

/-- An operation of two steps succeeds if both do. -/
theorem bind_eq_ok_iff {result : Except ε α} {next : α → Except ε β} {value : β} :
    (result >>= next) = .ok value ↔ ∃ before, result = .ok before ∧ next before = .ok value := by
  cases result <;> simp

/-- An operation of two steps fails if the first does, or the second behind the first. -/
theorem bind_eq_error_iff {result : Except ε α} {next : α → Except ε β} {fault : ε} :
    (result >>= next) = .error fault ↔
      result = .error fault ∨ ∃ before, result = .ok before ∧ next before = .error fault := by
  cases result <;> simp

/-- An operation of two steps can succeed if the second one can behind the first. -/
theorem exists_bind_eq_ok_iff {result : Except ε α} {next : α → Except ε β} :
    (∃ value, (result >>= next) = .ok value) ↔
      ∃ before, result = .ok before ∧ ∃ value, next before = .ok value := by
  cases result <;> simp

/-- A result that yields a value is that value. -/
theorem ok_of_toOption {result : Except ε α} {value : α} (h : result.toOption = some value) :
    result = .ok value := by
  cases result with
  | error fault => contradiction
  | ok other => exact congrArg Except.ok (Option.some.inj h)

end ChatHistory
