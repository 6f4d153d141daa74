/-!
# Outcomes

Lowering an expression has three ends: a result, the answer that the target has no equivalent,
or a weekday that no day is called by. Having no equivalent is not an error, because the host can
always evaluate the expression itself.
-/

namespace SqlLowering

/-- How lowering an expression ends. -/
inductive Outcome (α : Type) where
  | done (value : α)
  | untranslatable
  | unknownWeekday (name : String)
deriving DecidableEq

namespace Outcome

variable {α β : Type}

/-- Continue with the result, if there is one. -/
def bind (x : Outcome α) (f : α → Outcome β) : Outcome β :=
  match x with
  | done a => f a
  | untranslatable => untranslatable
  | unknownWeekday name => unknownWeekday name

instance : Monad Outcome where
  pure := done
  bind := bind

/-- A continued computation has a result when its first part has one and the rest then has one. -/
theorem bind_eq_done {x : Outcome α} {f : α → Outcome β} {b : β} :
    x >>= f = done b ↔ ∃ a, x = done a ∧ f a = done b := by
  cases x <;> simp [Bind.bind, Outcome.bind]

/-- A missing value is untranslatable. -/
def ofOption : Option α → Outcome α
  | some a => done a
  | none => untranslatable

end Outcome

end SqlLowering
