import SqlLowering.Text.Digits

/-!
# Data types

The scalar types of the host. Nothing is checked against them; they decide how a cast, a decimal
literal or a rounding is written.
-/

namespace SqlLowering

/-- A scalar type of the host. -/
inductive DataType where
  | null
  | boolean
  | byte
  | short
  | integer
  | long
  | float
  | double
  | decimal (precision scale : UInt8)
  | string
  | binary
  | date
  | timestamp
  | interval
deriving DecidableEq, Repr

namespace DataType

/-- Whole numbers of some width. -/
def isIntegral : DataType → Bool
  | byte | short | integer | long => true
  | _ => false

/-- Numbers that may have a fraction. -/
def isFractional : DataType → Bool
  | float | double | decimal .. => true
  | _ => false

/-- Binary numbers, whose digits are not exact decimals. -/
def isApproximate : DataType → Bool
  | float | double => true
  | _ => false

/-- Numbers of any kind. -/
def isNumeric (t : DataType) : Bool :=
  t.isIntegral || t.isFractional

/-- Dates and timestamps. -/
def isTemporal : DataType → Bool
  | date | timestamp => true
  | _ => false

/-- The name shown to people. -/
def text : DataType → String
  | null => "null"
  | boolean => "boolean"
  | byte => "byte"
  | short => "short"
  | integer => "int"
  | long => "long"
  | float => "float"
  | double => "double"
  | decimal precision scale =>
    "decimal(" ++ Text.natText precision.toNat ++ ", " ++ Text.natText scale.toNat ++ ")"
  | string => "string"
  | binary => "binary"
  | date => "date"
  | timestamp => "timestamp"
  | interval => "interval"

end DataType

end SqlLowering
