import SqlLowering.Fragment

/-!
# Literals on the target

Truth values, numbers and intervals are written into the text, because their spelling is fixed.
Everything with content of its own is bound. A decimal is cast to the precision it needs or was
declared with, within the limits of the target; an approximate number is written with an exponent,
so that the target takes it for one.
-/

namespace SqlLowering.Literal

open Number

/-- The decimal type of the target; its precision is at most 65 and its scale at most 30. -/
def decimalType (precision scale : UInt8) : Fragment :=
  .join [.raw "DECIMAL(", .nat (min precision.toNat 65), .raw ",", .nat (min scale.toNat 30),
    .raw ")"] ""

/-- A decimal with all its digits. Under a declared decimal type it is cast to that type,
otherwise to the type of its own. -/
def ofDecimal (d : Decimal) (declared : DataType) : Fragment :=
  let target := match declared with
    | .decimal precision scale => decimalType precision scale
    | _ => decimalType d.precision.toUInt8 d.scale.toUInt8
  .join [.raw "CAST(", .decimal d, .raw " AS ", target, .raw ")"] ""

/-- A number of units of time. -/
def intervalOf (amount : Int) (unit : String) : Fragment :=
  .words [.raw "INTERVAL", .int amount, .raw unit]

/-- An interval has an equivalent when at most one of its three parts is not zero. -/
def ofInterval? (months days : Int32) (micros : Int64) : Option Fragment :=
  if days = 0 ∧ micros = 0 ∧ months ≠ 0 then some (intervalOf months.toInt "MONTH")
  else if months = 0 ∧ micros = 0 then some (intervalOf days.toInt "DAY")
  else if months = 0 ∧ days = 0 then some (intervalOf micros.toInt "MICROSECOND")
  else none

/-- A value as a literal of a declared type. There is none for numbers that are not finite and for
intervals of several parts. -/
def encode (value : Value) (declared : DataType) : Option Fragment :=
  match value with
  | .null | .string _ | .binary _ | .date _ | .timestamp _ => some (.bind value declared)
  | .bool true => some (.raw "TRUE")
  | .bool false => some (.raw "FALSE")
  | .byte n => some (.int n.toInt)
  | .short n => some (.int n.toInt)
  | .int n => some (.int n.toInt)
  | .long n => some (.int n.toInt)
  | .float x => Fragment.float? x.reading
  | .double x => Fragment.float? x.reading
  | .decimal d => some (ofDecimal d declared)
  | .interval months days micros => ofInterval? months days micros

/-- Several values of one declared type, all or none. -/
def encodeAll (values : List Value) (declared : DataType) : Option (List Fragment) :=
  values.mapM (encode · declared)

end SqlLowering.Literal
