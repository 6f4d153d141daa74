import SqlLowering.Lowering.Atom
import SqlLowering.Lowering.Call
import SqlLowering.Lowering.Condition
import SqlLowering.Lowering.Conversion
import SqlLowering.Lowering.Grouping

/-!
# Lowering whole expressions

The rules in their order, the lowering of an expression by them, and the lowering of a root, whose
outermost alias names the column of a select list.
-/

namespace SqlLowering

open Dialect

/-- The rules, in the order in which they are tried. -/
def Rule.standard : List Rule :=
  [column, literal, nestedAlias, cast, compositeCall, variadicFunction, aggregate, window,
   binaryOperator, unaryOperator, leafFunction, scalarFunction, dateArithmetic, formatFunction,
   patternMatch, textPredicate, membership, conditional]

/-- Lower an expression inside a larger one. -/
def Expr.lower (ctx : Context) (e : Expr) : Lowering Fragment :=
  Rule.lowerWith Rule.standard ctx e

/-- Lower a root. An alias at the root is kept, all others are dropped. -/
def Expr.lowerRoot (ctx : Context) : Expr → Lowering Fragment
  | .alias child name => do pure ((← child.lower ctx).aliased name)
  | e => e.lower ctx

end SqlLowering
