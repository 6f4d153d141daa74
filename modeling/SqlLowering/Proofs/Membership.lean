import SqlLowering.Proofs.Places

/-!
# Sets of values and lists of literals

A membership test takes its members from a set of values of one declared type or from a list of
expressions. The values of a set are written all at once, and one that cannot be written leaves the
whole test without an equivalent. The expressions of a list go through the rules one after the
other, each with its own outcome and its own notes.

Main statement: `Expr.lower_inSet_eq_inList`. For literals the two ways come to the same, also where
the value that is looked for fails: in both the members come first.
-/

namespace SqlLowering

open Dialect

/-- Literals of one type are lowered one by one as their values are written all at once: each value
must have a text, and no literal leaves a note. -/
theorem Lowering.each_literals (ctx : Context) (values : List Value) (type : DataType) :
    (each (values.map (Expr.literal · type)) fun c _ => c.lower ctx) =
      ofOption (Literal.encodeAll values type) := by
  induction values with
  | nil => rfl
  | cons value values ih =>
      rw [Literal.encodeAll] at ih ⊢
      rw [List.map_cons, each, Expr.lower_literal, ih, List.mapM_cons]
      cases Literal.encode value type with
      | none => rfl
      | some first =>
          cases values.mapM (Literal.encode · type) with
          | none => rfl
          | some rest => rfl

namespace Expr

/-- A test for membership in a set of values is lowered as the test for membership in the list of
its literals. The results are the same, so are the failures and the notes, and one test can stand
for the other at every place of a larger expression. -/
theorem lower_inSet_eq_inList (ctx : Context) (child : Expr) (values : List Value)
    (type : DataType) (negated : Bool) :
    (inSet child values type negated).lower ctx =
        (inList child (values.map (literal · type)) negated).lower ctx ∧
      ∀ place : Place, (place.fill (inSet child values type negated)).lower ctx =
        (place.fill (inList child (values.map (literal · type)) negated)).lower ctx := by
  have same : (inSet child values type negated).lower ctx =
      (inList child (values.map (literal · type)) negated).lower ctx := by
    rw [lower_inSet, lower_inList, Lowering.each_literals]
  have agree : Agrees .equal ctx ctx (inSet child values type negated)
      (inList child (values.map (literal · type)) negated) := ⟨rfl, rfl, same⟩
  exact ⟨same, fun place => (agree.fill place).lower⟩

end Expr

end SqlLowering
