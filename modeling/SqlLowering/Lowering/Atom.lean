import SqlLowering.Lowering.Literal
import SqlLowering.Lowering.Rule

/-!
# Columns, literals and aliases

An alias below the root has no meaning for the target and is passed through.
-/

namespace SqlLowering.Rule

/-- A column under the name that the context gives it. -/
def column : Rule
  | ctx, .column ref, _ => .ofOption (ctx.resolver ref)
  | _, _, _ => .untranslatable

/-- A literal of its declared type. -/
def literal : Rule
  | _, .literal value declared, _ => .ofOption (Literal.encode value declared)
  | _, _, _ => .untranslatable

/-- The aliased expression without its alias. -/
def nestedAlias : Rule
  | _, .alias child name, d => d.child child (Expr.mem_children_alias child name)
  | _, _, _ => .untranslatable

end SqlLowering.Rule
