import SqlLowering.Json.Shape
import SqlLowering.Value

/-!
# Types and values in JSON

Dates, timestamps and decimals are written as their texts. A decimal is also read from a number:
from an integer as it is, from any other number by its shortest plain text.
-/

namespace SqlLowering

open Json Number Calendar

namespace DataType

/-- The types without parameters and their names. -/
def names : List (DataType × String) :=
  [(.null, "Null"), (.boolean, "Boolean"), (.byte, "Byte"), (.short, "Short"),
   (.integer, "Integer"), (.long, "Long"), (.float, "Float"), (.double, "Double"),
   (.string, "String"), (.binary, "Binary"), (.date, "Date"), (.timestamp, "Timestamp"),
   (.interval, "Interval")]

/-- The JSON form of a type. -/
def toJson : DataType → Json
  | .decimal precision scale =>
    tagged "Decimal" (.object [("precision", .nat precision.toNat), ("scale", .nat scale.toNat)])
  | t => .string ((names.lookup t).getD "")

/-- Read a type. -/
def ofJson? (j : Json) : Option DataType := do
  match ← variant? j with
  | ("Decimal", some content) =>
    match ← record? ["precision", "scale"] content with
    | [precision, scale] =>
      pure (.decimal (← precision.toUnsigned? 8).toUInt8 (← scale.toUnsigned? 8).toUInt8)
    | _ => none
  | _ =>
    let name ← unitName? j
    (names.find? (·.2 == name)).map (·.1)

end DataType

namespace Value

/-- Read a decimal from its text or from a number. -/
def decimalOfJson? : Json → Option Decimal
  | .string s => Decimal.parse? s
  | .number n =>
    match n.toInt? with
    | some i => Decimal.ofInt? i
    | none => n.toBinary64?.bind fun x => Decimal.readPlain? x.reading.plain.toList
  | _ => none

/-- The JSON form of a value. A number that is not finite is written as null. -/
def toJson : Value → Json
  | .null => .string "Null"
  | .bool b => tagged "Bool" (.bool b)
  | .byte n => tagged "Byte" (.int n.toInt)
  | .short n => tagged "Short" (.int n.toInt)
  | .int n => tagged "Int" (.int n.toInt)
  | .long n => tagged "Long" (.int n.toInt)
  | .float x => tagged "Float" (.ofOption ((Numeral.ofBinary32? x).map .number))
  | .double x => tagged "Double" (.ofOption ((Numeral.ofBinary64? x).map .number))
  | .decimal d => tagged "Decimal" (.string d.text)
  | .string s => tagged "String" (.string s)
  | .binary bytes => tagged "Binary" (.array (bytes.map fun b => .nat b.toNat))
  | .date d => tagged "Date" (.string d.text)
  | .timestamp t => tagged "Timestamp" (.string t.text)
  | .interval months days micros =>
    tagged "Interval" (.object [("months", .int months.toInt), ("days", .int days.toInt),
      ("micros", .int micros.toInt)])

/-- Read the content of a value of the given name. -/
def ofContent? (name : String) (content : Json) : Option Value :=
  match name with
  | "Bool" => content.toBool?.map .bool
  | "Byte" => (content.toSigned? 8).map fun i => .byte (.ofInt i)
  | "Short" => (content.toSigned? 16).map fun i => .short (.ofInt i)
  | "Int" => (content.toSigned? 32).map fun i => .int (.ofInt i)
  | "Long" => (content.toSigned? 64).map fun i => .long (.ofInt i)
  | "Float" =>
    match content with
    | .number n => n.toBinary32?.map .float
    | _ => none
  | "Double" =>
    match content with
    | .number n => n.toBinary64?.map .double
    | _ => none
  | "Decimal" => (decimalOfJson? content).map .decimal
  | "String" => content.toString?.map .string
  | "Binary" =>
    (content.toList? (fun b => (b.toUnsigned? 8).map Nat.toUInt8)).map .binary
  | "Date" => (content.toString?.bind Date.parse?).map .date
  | "Timestamp" => (content.toString?.bind Timestamp.parse?).map .timestamp
  | "Interval" => do
    match ← record? ["months", "days", "micros"] content with
    | [months, days, micros] =>
      pure (.interval (.ofInt (← months.toSigned? 32)) (.ofInt (← days.toSigned? 32))
        (.ofInt (← micros.toSigned? 64)))
    | _ => none
  | _ => none

/-- Read a value. -/
def ofJson? (j : Json) : Option Value :=
  if unitName? j = some "Null" then
    some .null
  else
    match variant? j with
    | some (name, some content) => ofContent? name content
    | _ => none

end Value

end SqlLowering
