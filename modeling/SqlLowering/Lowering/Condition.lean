import SqlLowering.Lowering.Literal
import SqlLowering.Lowering.Rule

/-!
# Pattern matching and membership

A text is matched with wildcards or with a regular expression; the latter from the start of the
text by a caret in front of it. A membership test needs at least one member, and its members are
lowered before the value that is looked for.
-/

namespace SqlLowering.Rule

open Fragment

/-- The words of a match. The backslash is the escape character of the target and is left out. -/
def matchWords (kind : MatchKind) (text pattern : Fragment) : List Fragment :=
  match kind with
  | .like escape =>
    [text, .raw "LIKE", pattern] ++
      if escape = '\\' then [] else [.raw "ESCAPE", bindText (String.singleton escape)]
  | .regex => [text, .raw "RLIKE", pattern]
  | .regexFromStart => [text, .raw "RLIKE", func "CONCAT" [.raw "'^'", pattern]]

/-- Matching a text with a pattern. -/
def patternMatch : Rule
  | _, .pattern kind child regex, d => do
    let text ← d.child child (Expr.text_mem_children kind child regex)
    let pattern ← d.child regex (Expr.regex_mem_children kind child regex)
    pure (parenthesize (words (matchWords kind text pattern)))
  | _, _, _ => .untranslatable

/-- A value looked for among members. -/
def memberTest (value : Fragment) (members : List Fragment) (negated : Bool) : Fragment :=
  parenthesize (words [value, .raw (if negated then "NOT IN" else "IN"),
    parenthesize (join members ", ")])

/-- Membership in a list of expressions or in a set of literals. -/
def membership : Rule
  | _, .inList child items negated, d => do
    let members ← Lowering.each items fun c h => d.child c (Expr.mem_children_of_mem_inList h)
    Lowering.require (!members.isEmpty)
    let value ← d.child child (Expr.mem_children_inList child items negated)
    pure (memberTest value members negated)
  | _, .inSet child values declared negated, d => do
    let members ← Lowering.ofOption (Literal.encodeAll values declared)
    Lowering.require (!members.isEmpty)
    let value ← d.child child (Expr.mem_children_inSet child values declared negated)
    pure (memberTest value members negated)
  | _, _, _ => .untranslatable

end SqlLowering.Rule
