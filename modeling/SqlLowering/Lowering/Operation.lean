import SqlLowering.Lowering.Rule

/-!
# Operators and conditionals

Every operation is put in parentheses, or its operand is, so that the precedence of operators on the
target never matters.
-/

namespace SqlLowering.Rule

open Fragment

/-- Both operands with the token between them, in parentheses. -/
def binaryOperator : Rule
  | _, .binary op left right, d => do
    let before ← d.child left (Expr.left_mem_children op left right)
    let after ← d.child right (Expr.right_mem_children op left right)
    pure (parenthesize (words [before, .raw op.token, after]))
  | _, _, _ => .untranslatable

/-- A sign in front of the operand in parentheses, or a test for null after the operand. -/
def applyUnary (op : UnaryOp) (operand : Fragment) : Fragment :=
  match op with
  | .not => concat (.raw "NOT") (parenthesize operand) " "
  | .negate => concat (.raw "-") (parenthesize operand) ""
  | .bitNot => concat (.raw "~") (parenthesize operand) ""
  | .isNull => parenthesize (concat operand (.raw "IS NULL") " ")
  | .isNotNull => parenthesize (concat operand (.raw "IS NOT NULL") " ")

/-- A unary operator applied to its operand. -/
def unaryOperator : Rule
  | _, .unary op child, d => do
    let operand ← d.child child (Expr.mem_children_unary op child)
    pure (applyUnary op operand)
  | _, _, _ => .untranslatable

/-- A choice between two values. -/
def ifElse (condition consequent otherwise : Fragment) : Fragment :=
  func "IF" [condition, consequent, otherwise]

/-- The words of one branch of a case distinction. -/
def branchWords (condition result : Fragment) : List Fragment :=
  [.raw "WHEN", condition, .raw "THEN", result]

/-- A case distinction with its branches in order. -/
def caseWhen (branches : List (List Fragment)) (otherwise : Option Fragment) : Fragment :=
  let tail := match otherwise with
    | some f => [.raw "ELSE", f]
    | none => []
  words ([.raw "CASE"] ++ branches.flatten ++ tail ++ [.raw "END"])

/-- Choices by one condition or by several branches; a case distinction without branches has no
equivalent. -/
def conditional : Rule
  | _, .conditional predicate consequent otherwise, d => do
    let condition ← d.child predicate (Expr.predicate_mem_children predicate consequent otherwise)
    let yes ← d.child consequent (Expr.consequent_mem_children predicate consequent otherwise)
    let no ← d.child otherwise (Expr.otherwise_mem_children predicate consequent otherwise)
    pure (ifElse condition yes no)
  | _, .case branches otherwise, d => do
    Lowering.require (!branches.isEmpty)
    let branches ← Lowering.each branches fun branch h => do
      let condition ← d.child branch.1 (Expr.condition_mem_children h)
      let result ← d.child branch.2 (Expr.result_mem_children h)
      pure (branchWords condition result)
    let otherwise ← Lowering.optional otherwise fun e h =>
      d.child e (Expr.mem_children_of_case_otherwise h)
    pure (caseWhen branches otherwise)
  | _, _, _ => .untranslatable

end SqlLowering.Rule
