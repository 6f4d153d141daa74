/-!
# Operators

The operators of the host with the tokens of the target, and the aggregate functions with their
names on the target. Each has a name of its own in the JSON form of an expression.
-/

namespace SqlLowering

/-- A binary operator. -/
inductive BinaryOp where
  | add | sub | mul | div | rem | intDiv
  | eq | notEq | nullSafeEq | lt | ltEq | gt | gtEq
  | and | or
  | bitAnd | bitOr | bitXor | shiftLeft | shiftRight
deriving DecidableEq, Repr

namespace BinaryOp

/-- All binary operators. -/
def all : List BinaryOp :=
  [add, sub, mul, div, rem, intDiv, eq, notEq, nullSafeEq, lt, ltEq, gt, gtEq, and, or, bitAnd,
   bitOr, bitXor, shiftLeft, shiftRight]

/-- The name in the JSON form. -/
def name : BinaryOp → String
  | add => "Add"
  | sub => "Sub"
  | mul => "Mul"
  | div => "Div"
  | rem => "Rem"
  | intDiv => "IntDiv"
  | eq => "Eq"
  | notEq => "NotEq"
  | nullSafeEq => "NullSafeEq"
  | lt => "Lt"
  | ltEq => "LtEq"
  | gt => "Gt"
  | gtEq => "GtEq"
  | and => "And"
  | or => "Or"
  | bitAnd => "BitAnd"
  | bitOr => "BitOr"
  | bitXor => "BitXor"
  | shiftLeft => "ShiftLeft"
  | shiftRight => "ShiftRight"

/-- The operator of that name. -/
def ofName? (s : String) : Option BinaryOp :=
  all.find? (·.name == s)

/-- The token the target uses. -/
def token : BinaryOp → String
  | add => "+"
  | sub => "-"
  | mul => "*"
  | div => "/"
  | rem => "%"
  | intDiv => "DIV"
  | eq => "="
  | notEq => "!="
  | nullSafeEq => "<=>"
  | lt => "<"
  | ltEq => "<="
  | gt => ">"
  | gtEq => ">="
  | and => "AND"
  | or => "OR"
  | bitAnd => "&"
  | bitOr => "|"
  | bitXor => "^"
  | shiftLeft => "<<"
  | shiftRight => ">>"

/-- Comparisons and connectives, whose result is a truth value. -/
def isPredicate : BinaryOp → Bool
  | eq | notEq | nullSafeEq | lt | ltEq | gt | gtEq | and | or => true
  | _ => false

end BinaryOp

/-- A unary operator. -/
inductive UnaryOp where
  | not | negate | bitNot | isNull | isNotNull
deriving DecidableEq, Repr

namespace UnaryOp

/-- All unary operators. -/
def all : List UnaryOp :=
  [not, negate, bitNot, isNull, isNotNull]

/-- The name in the JSON form. -/
def name : UnaryOp → String
  | not => "Not"
  | negate => "Negate"
  | bitNot => "BitNot"
  | isNull => "IsNull"
  | isNotNull => "IsNotNull"

/-- The operator of that name. -/
def ofName? (s : String) : Option UnaryOp :=
  all.find? (·.name == s)

end UnaryOp

/-- An aggregate function. -/
inductive AggregateFunction where
  | count | sum | avg | min | max
  | stddevPop | stddevSamp | varPop | varSamp
  | anyValue | approxCountDistinct
  | bitAnd | bitOr | bitXor
deriving DecidableEq, Repr

namespace AggregateFunction

/-- All aggregate functions. -/
def all : List AggregateFunction :=
  [count, sum, avg, min, max, stddevPop, stddevSamp, varPop, varSamp, anyValue,
   approxCountDistinct, bitAnd, bitOr, bitXor]

/-- The name in the JSON form. -/
def name : AggregateFunction → String
  | count => "Count"
  | sum => "Sum"
  | avg => "Avg"
  | min => "Min"
  | max => "Max"
  | stddevPop => "StddevPop"
  | stddevSamp => "StddevSamp"
  | varPop => "VarPop"
  | varSamp => "VarSamp"
  | anyValue => "AnyValue"
  | approxCountDistinct => "ApproxCountDistinct"
  | bitAnd => "BitAnd"
  | bitOr => "BitOr"
  | bitXor => "BitXor"

/-- The function of that name. -/
def ofName? (s : String) : Option AggregateFunction :=
  all.find? (·.name == s)

/-- The name on the target. -/
def sqlName : AggregateFunction → String
  | count => "COUNT"
  | sum => "SUM"
  | avg => "AVG"
  | min => "MIN"
  | max => "MAX"
  | stddevPop => "STDDEV_POP"
  | stddevSamp => "STDDEV_SAMP"
  | varPop => "VAR_POP"
  | varSamp => "VAR_SAMP"
  | anyValue => "ANY_VALUE"
  | approxCountDistinct => "APPROX_COUNT_DISTINCT"
  | bitAnd => "BIT_AND"
  | bitOr => "BIT_OR"
  | bitXor => "BIT_XOR"

end AggregateFunction

end SqlLowering
