import Mathlib.Data.List.Forall2
import SqlLowering.Lowering.Basic

/-!
# Outcomes of composed lowerings

A lowering is put together from smaller ones. This module says how its outcome follows from theirs,
in two forms. The first is about one run: a lowering that goes on after another has a result exactly
when both have one. The second is about two runs side by side: if the parts end in related ways, so
does the whole. Notes are left out of both; they never decide an outcome.
-/

namespace SqlLowering

variable {α β γ δ : Type}

namespace Outcome

@[simp] theorem done_bind (a : α) (f : α → Outcome β) : (done a >>= f) = f a := rfl

@[simp] theorem untranslatable_bind (f : α → Outcome β) :
    ((untranslatable : Outcome α) >>= f) = untranslatable := rfl

@[simp] theorem unknownWeekday_bind (name : String) (f : α → Outcome β) :
    ((unknownWeekday name : Outcome α) >>= f) = unknownWeekday name := rfl

/-- An optional value is a result exactly if it is there. -/
theorem ofOption_eq_done {x : Option α} {a : α} : ofOption x = done a ↔ x = some a := by
  cases x <;> simp [ofOption]

end Outcome

namespace Lowering

@[simp] theorem outcome_pure (a : α) : (pure a : Lowering α).outcome = .done a := rfl

@[simp] theorem outcome_done (a : α) : (done a).outcome = .done a := rfl

@[simp] theorem outcome_untranslatable :
    (untranslatable : Lowering α).outcome = .untranslatable := rfl

@[simp] theorem outcome_ofOutcome (x : Outcome α) : (ofOutcome x).outcome = x := rfl

@[simp] theorem outcome_ofOption (x : Option α) : (ofOption x).outcome = .ofOption x := rfl

@[simp] theorem outcome_convert (mode : Format.Mode) (pattern : String) :
    (convert mode pattern).outcome = .done (mode.convert pattern) := rfl

/-- Notes do not influence how a computation goes on. -/
@[simp] theorem outcome_bind (x : Lowering α) (f : α → Lowering β) :
    (x >>= f).outcome = x.outcome >>= fun a => (f a).outcome := by
  obtain ⟨notices, outcome⟩ := x
  cases outcome <;> rfl

/-- A computation that goes on after a requirement has a result only if the requirement is met. -/
theorem outcome_require_bind_eq_done {condition : Bool} {f : Unit → Lowering β} {b : β} :
    (require condition >>= f).outcome = .done b ↔ condition = true ∧ (f ()).outcome = .done b := by
  cases condition <;> simp [require]

end Lowering

namespace Outcome

/-- Two outcomes of one kind: results that are related, or the same failure. -/
inductive Rel (R : α → β → Prop) : Outcome α → Outcome β → Prop
  | done {a : α} {b : β} (related : R a b) : Rel R (.done a) (.done b)
  | untranslatable : Rel R .untranslatable .untranslatable
  | unknownWeekday (name : String) : Rel R (.unknownWeekday name) (.unknownWeekday name)

namespace Rel

variable {R : α → β → Prop} {S : γ → δ → Prop}

/-- Every outcome is related to itself, a failure to the same failure. -/
theorem refl (x : Outcome α) : Rel Eq x x := by
  cases x with
  | done a => exact done rfl
  | untranslatable => exact untranslatable
  | unknownWeekday name => exact unknownWeekday name

/-- Values that are there on both sides, or on neither, make related outcomes. -/
theorem ofOption {x : Option α} {y : Option β} (h : Option.Rel R x y) :
    Rel R (.ofOption x) (.ofOption y) := by
  cases h with
  | some related => exact done related
  | none => exact untranslatable

/-- Going on in related ways from related outcomes. -/
theorem bind {x : Outcome α} {y : Outcome β} {f : α → Outcome γ} {g : β → Outcome δ}
    (first : Rel R x y) (next : ∀ a b, R a b → Rel S (f a) (g b)) :
    Rel S (x >>= f) (y >>= g) := by
  cases first with
  | done related => exact next _ _ related
  | untranslatable => exact untranslatable
  | unknownWeekday name => exact unknownWeekday name

end Rel

end Outcome

namespace Lowering

/-- Two lowerings end in related ways, whatever notes they leave. -/
def Rel (R : α → β → Prop) (x : Lowering α) (y : Lowering β) : Prop :=
  Outcome.Rel R x.outcome y.outcome

namespace Rel

variable {R : α → β → Prop} {S : γ → δ → Prop}

theorem pure {a : α} {b : β} (related : R a b) :
    Rel R (Pure.pure a : Lowering α) (Pure.pure b : Lowering β) :=
  Outcome.Rel.done related

theorem untranslatable : Rel R (Lowering.untranslatable) (Lowering.untranslatable) :=
  Outcome.Rel.untranslatable

theorem ofOption {x : Option α} {y : Option β} (h : Option.Rel R x y) :
    Rel R (Lowering.ofOption x) (Lowering.ofOption y) :=
  Outcome.Rel.ofOption h

/-- The same for lowerings, whose notes have no part in it. -/
theorem bind {x : Lowering α} {y : Lowering β} {f : α → Lowering γ} {g : β → Lowering δ}
    (first : Rel R x y) (next : ∀ a b, R a b → Rel S (f a) (g b)) :
    Rel S (x >>= f) (y >>= g) := by
  rw [Rel, outcome_bind, outcome_bind]
  exact Outcome.Rel.bind first next

/-- Going on from the same choice on both sides. -/
theorem bind_ofOption (x : Option α) {f : α → Lowering γ} {g : α → Lowering δ}
    (next : ∀ a, x = some a → Rel S (f a) (g a)) :
    Rel S (Lowering.ofOption x >>= f) (Lowering.ofOption x >>= g) := by
  cases x with
  | none => exact Outcome.Rel.untranslatable
  | some a => exact next a rfl

/-- Going on after the same requirement on both sides. -/
theorem bind_require (condition : Bool) {f : Unit → Lowering γ} {g : Unit → Lowering δ}
    (next : Rel S (f ()) (g ())) :
    Rel S (Lowering.require condition >>= f) (Lowering.require condition >>= g) := by
  cases condition with
  | false => exact Outcome.Rel.untranslatable
  | true => exact next

/-- Lists of related members are lowered to lists of related results. -/
theorem each {xs : List α} {ys : List β} {f : (a : α) → a ∈ xs → Lowering γ}
    {g : (b : β) → b ∈ ys → Lowering δ} (members : List.Forall₂ R xs ys)
    (step : ∀ a (memA : a ∈ xs) b (memB : b ∈ ys), R a b → Rel S (f a memA) (g b memB)) :
    Rel (List.Forall₂ S) (Lowering.each xs f) (Lowering.each ys g) := by
  induction members with
  | nil => exact pure .nil
  | cons head tail ih =>
      rw [Lowering.each, Lowering.each]
      refine bind (step _ List.mem_cons_self _ List.mem_cons_self head) fun c d first => ?_
      refine bind (ih fun a memA b memB => step a (List.mem_cons_of_mem _ memA) b
        (List.mem_cons_of_mem _ memB)) fun cs ds rest => ?_
      exact pure (.cons first rest)

/-- Related optional operands are lowered to related optional results. -/
theorem optional {x : Option α} {y : Option β} {f : (a : α) → x = some a → Lowering γ}
    {g : (b : β) → y = some b → Lowering δ} (operands : Option.Rel R x y)
    (step : ∀ a (eqA : x = some a) b (eqB : y = some b), R a b → Rel S (f a eqA) (g b eqB)) :
    Rel (Option.Rel S) (Lowering.optional x f) (Lowering.optional y g) := by
  cases operands with
  | none => exact pure .none
  | some related =>
      rw [Lowering.optional, Lowering.optional]
      exact bind (step _ rfl _ rfl related) fun c d result => pure (.some result)

end Rel

end Lowering

end SqlLowering
