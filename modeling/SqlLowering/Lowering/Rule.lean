import SqlLowering.Expr.Composite
import SqlLowering.Lowering.Basic

/-!
# Rules

A rule lowers the nodes of one kind and passes on all others. It lowers operands through a
descent, which knows two ways down from a node: to one of its operands, and to the tree that a
composite call stands for. Both go down in the order of `(compositeDepth, size)`, so `lowerWith`
ends for every list of rules.
-/

namespace SqlLowering

open Dialect

/-- The ways down from a node that a rule may take. -/
structure Descent (e : Expr) where
  child : (c : Expr) → c ∈ e.children → Lowering Fragment
  expansion : (tree : Expr) → e.expansion = .done tree → Lowering Fragment

/-- Lowers the nodes of one kind; all others are untranslatable for it. -/
def Rule : Type :=
  Context → (e : Expr) → Descent e → Lowering Fragment

/-- The answer of the first rule that has one. -/
def Rule.firstOf (ctx : Context) (e : Expr) (d : Descent e) : List Rule → Lowering Fragment
  | [] => .untranslatable
  | rule :: rules => (rule ctx e d).orElse fun _ => firstOf ctx e d rules

/-- Lower an expression with a list of rules, which are used for all its parts too. -/
def Rule.lowerWith (rules : List Rule) (ctx : Context) (e : Expr) : Lowering Fragment :=
  firstOf ctx e ⟨fun c _ => lowerWith rules ctx c, fun tree _ => lowerWith rules ctx tree⟩ rules
termination_by (e.compositeDepth, e.size)
decreasing_by
  · rename_i h
    have depth := Expr.compositeDepth_le_of_mem_children h
    have size := Expr.size_lt_of_mem_children h
    rw [Prod.lex_def]
    omega
  · rename_i h
    exact Prod.Lex.left _ _ (Expr.compositeDepth_lt_of_expansion h)

end SqlLowering
