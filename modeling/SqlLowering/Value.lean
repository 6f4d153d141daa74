import SqlLowering.Calendar.Timestamp
import SqlLowering.DataType
import SqlLowering.Number.Decimal
import SqlLowering.Number.Notation

/-!
# Values

The scalars of the host, as literals of an expression and as parameters of the rendered text.
-/

namespace SqlLowering

open Number Calendar

/-- A scalar of the host. -/
inductive Value where
  | null
  | bool (value : Bool)
  | byte (value : Int8)
  | short (value : Int16)
  | int (value : Int32)
  | long (value : Int64)
  | float (value : Binary32)
  | double (value : Binary64)
  | decimal (value : Decimal)
  | string (value : String)
  | binary (bytes : List UInt8)
  | date (value : Date)
  | timestamp (value : Timestamp)
  | interval (months days : Int32) (micros : Int64)
deriving DecidableEq

namespace Value

/-- The type a value has on its own. A decimal takes the narrowest type that holds all its digits.
-/
def naturalType : Value → DataType
  | null => .null
  | bool _ => .boolean
  | byte _ => .byte
  | short _ => .short
  | int _ => .integer
  | long _ => .long
  | float _ => .float
  | double _ => .double
  | decimal d => .decimal d.precision.toUInt8 d.scale.toUInt8
  | string _ => .string
  | binary _ => .binary
  | date _ => .date
  | timestamp _ => .timestamp
  | interval .. => .interval

/-- The content of a string value. -/
def asString? : Value → Option String
  | string s => some s
  | _ => none

/-- A byte as two capital hexadecimal digits. -/
def hexByte (b : UInt8) : List Char :=
  let digit (n : Nat) : Char := "0123456789ABCDEF".toList.getD n '0'
  [digit (b.toNat / 16), digit (b.toNat % 16)]

/-- The text shown to people. It is not SQL: a quote inside a string stays as it is. -/
def text : Value → String
  | null => "NULL"
  | bool true => "true"
  | bool false => "false"
  | byte n => Text.intText n.toInt
  | short n => Text.intText n.toInt
  | int n => Text.intText n.toInt
  | long n => Text.intText n.toInt
  | float x => x.reading.plain
  | double x => x.reading.plain
  | decimal d => d.text
  | string s => "'" ++ s ++ "'"
  | binary bytes => "0x" ++ String.ofList (bytes.flatMap hexByte)
  | date d => "DATE '" ++ d.text ++ "'"
  | timestamp t => "TIMESTAMP '" ++ t.textWith ' ' ++ "'"
  | interval months days micros =>
    "INTERVAL " ++ Text.intText months.toInt ++ " months " ++ Text.intText days.toInt ++ " days " ++
      Text.intText micros.toInt ++ " micros"

end Value

end SqlLowering
