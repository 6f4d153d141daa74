import SqlLowering.Expr.Typing
import SqlLowering.Lowering.Literal
import SqlLowering.Lowering.Operation

/-!
# Casts

Some conversions differ on the target. A number with a fraction is rounded there and cut off by the
host, so it is cut off first. A number has no cast to a truth value, which is a comparison with zero
instead. A truth value becomes one of the texts `true` and `false`.
-/

namespace SqlLowering.Conversion

open Fragment

/-- A cast of the target. -/
def castAs (operand target : Fragment) : Fragment :=
  join [.raw "CAST(", operand, .raw " AS ", target, .raw ")"] ""

/-- The operand without its fraction. -/
def truncated (operand : Fragment) : Fragment :=
  func "TRUNCATE" [operand, .int 0]

/-- A number from this type; an untyped null counts as one. -/
def isNumberLike (source : DataType) : Bool :=
  source == .null || source.isNumeric || source == .boolean

/-- A point in time from this type; a text may be one. -/
def isTimeLike (source : DataType) : Bool :=
  source == .null || source.isTemporal || source == .string

/-- Convert an operand between two different types, if the target can. -/
def convert? (operand : Fragment) (source : DataType) : DataType → Option Fragment
  | .string =>
    if source = .boolean then
      some (Rule.ifElse operand (bindText "true") (bindText "false"))
    else if source = .binary then none
    else some (castAs operand (.raw "CHAR"))
  | .byte | .short | .integer | .long =>
    if source.isFractional then some (castAs (truncated operand) (.raw "SIGNED"))
    else if source = .null ∨ source.isIntegral ∨ source = .boolean then
      some (castAs operand (.raw "SIGNED"))
    else none
  | .float | .double =>
    if isNumberLike source then some (castAs operand (.raw "DOUBLE")) else none
  | .decimal precision scale =>
    if isNumberLike source then some (castAs operand (Literal.decimalType precision scale))
    else none
  | .date => if isTimeLike source then some (castAs operand (.raw "DATE")) else none
  | .timestamp => if isTimeLike source then some (castAs operand (.raw "DATETIME(6)")) else none
  | .boolean =>
    if source.isNumeric then some (parenthesize (words [operand, .raw "!=", .int 0])) else none
  | .null | .binary | .interval => none

end Conversion

/-- A cast; one to the type that the operand already has is the operand. -/
def Rule.cast : Rule
  | _, .cast child target, d => do
    let operand ← d.child child (Expr.mem_children_cast child target)
    if child.dataType = target then
      pure operand
    else
      .ofOption (Conversion.convert? operand child.dataType target)
  | _, _, _ => .untranslatable

end SqlLowering
