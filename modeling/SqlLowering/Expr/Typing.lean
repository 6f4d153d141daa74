import SqlLowering.Expr.Basic

/-!
# Types of expressions

Leaves carry their type; every other node derives it from at most one operand. The operands are
trusted, so the type of a sum is the type of its left side.
-/

namespace SqlLowering

/-- The type of an aggregate, given the type of its first argument if there is one. -/
def AggregateFunction.returnType (first : Option DataType) : AggregateFunction → DataType
  | count | approxCountDistinct => .long
  | avg | stddevPop | stddevSamp | varPop | varSamp => .double
  | sum | min | max | anyValue | bitAnd | bitOr | bitXor => first.getD .null

/-- The type of an expression. -/
def Expr.dataType : Expr → DataType
  | .literal _ type => type
  | .column ref => ref.dataType
  | .alias child _ => child.dataType
  | .unary .negate child | .unary .bitNot child => child.dataType
  | .unary .not _ | .unary .isNull _ | .unary .isNotNull _ => .boolean
  | .binary op left _ => if op.isPredicate then .boolean else left.dataType
  | .call func [] => func.returnType none
  | .call func (first :: _) => func.returnType (some first.dataType)
  | .conditional _ consequent _ => consequent.dataType
  | .case ((_, result) :: _) _ => result.dataType
  | .case [] (some otherwise) => otherwise.dataType
  | .case [] none => .null
  | .pattern .. | .inList .. | .inSet .. => .boolean
  | .cast _ target => target
  | .aggregate ⟨func, [], _, _⟩ => func.returnType none
  | .aggregate ⟨func, first :: _, _, _⟩ => func.returnType (some first.dataType)
  | .window ⟨.aggregate ⟨func, [], _, _⟩, _, _, _⟩ => func.returnType none
  | .window ⟨.aggregate ⟨func, first :: _, _, _⟩, _, _, _⟩ => func.returnType (some first.dataType)
  | .window ⟨.rowNumber, _, _, _⟩ | .window ⟨.rank, _, _, _⟩ | .window ⟨.denseRank, _, _, _⟩
  | .window ⟨.ntile _, _, _, _⟩ => .long
  | .window ⟨.percentRank, _, _, _⟩ | .window ⟨.cumeDist, _, _, _⟩ => .double
  | .window ⟨.lag input _ _, _, _, _⟩ | .window ⟨.lead input _ _, _, _, _⟩
  | .window ⟨.firstValue input, _, _, _⟩ | .window ⟨.lastValue input, _, _, _⟩
  | .window ⟨.nthValue input _, _, _, _⟩ => input.dataType

end SqlLowering
