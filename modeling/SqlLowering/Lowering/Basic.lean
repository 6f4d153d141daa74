import SqlLowering.Dialect.Context
import SqlLowering.Format.Mode
import SqlLowering.Outcome

/-!
# Lowering with notes

A lowering ends with an outcome and leaves the notes of the date patterns converted on the way. The
notes stay also when the outcome is not a result, in the order in which the conversions took place.
-/

namespace SqlLowering

open Format

/-- An outcome with the notes that led to it. -/
structure Lowering (α : Type) where
  notices : List Notice
  outcome : Outcome α

namespace Lowering

variable {α β : Type}

/-- A result without notes. -/
def done (a : α) : Lowering α :=
  ⟨[], .done a⟩

/-- The target has no equivalent. -/
def untranslatable : Lowering α :=
  ⟨[], .untranslatable⟩

/-- Continue with the result; the notes follow those made before. -/
def bind (x : Lowering α) (f : α → Lowering β) : Lowering β :=
  match x.outcome with
  | .done a => ⟨x.notices ++ (f a).notices, (f a).outcome⟩
  | .untranslatable => ⟨x.notices, .untranslatable⟩
  | .unknownWeekday name => ⟨x.notices, .unknownWeekday name⟩

instance : Monad Lowering where
  pure := done
  bind := bind

/-- An outcome without notes. -/
def ofOutcome (x : Outcome α) : Lowering α :=
  ⟨[], x⟩

/-- A missing value is untranslatable. -/
def ofOption (x : Option α) : Lowering α :=
  ofOutcome (.ofOption x)

/-- Go on only if a condition holds. -/
def require (condition : Bool) : Lowering Unit :=
  if condition then done () else untranslatable

/-- Convert a date pattern and note it. -/
def convert (mode : Mode) (pattern : String) : Lowering String :=
  ⟨[mode.notice pattern], .done (mode.convert pattern)⟩

/-- The first answer: a lowering that finds no equivalent passes to the next one, keeping its
notes. -/
def orElse (x : Lowering α) (next : Unit → Lowering α) : Lowering α :=
  match x.outcome with
  | .untranslatable => ⟨x.notices ++ (next ()).notices, (next ()).outcome⟩
  | _ => x

/-- Lower the members of a list in order; each must have a result. The function may rely on being
given members only. -/
def each : (xs : List α) → ((a : α) → a ∈ xs → Lowering β) → Lowering (List β)
  | [], _ => done []
  | a :: as, f => do
    let b ← f a List.mem_cons_self
    let bs ← each as fun a h => f a (List.mem_cons_of_mem _ h)
    pure (b :: bs)

/-- Lower an optional operand. -/
def optional : (x : Option α) → ((a : α) → x = some a → Lowering β) → Lowering (Option β)
  | none, _ => done none
  | some a, f => do
    let b ← f a rfl
    pure (some b)

end Lowering

end SqlLowering
