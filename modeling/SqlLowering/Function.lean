import SqlLowering.DataType

/-!
# Scalar functions

The functions of the host: how many arguments each one takes, and the type of its result. Seven of
them are composite, which means that they stand for a tree of other calls.
-/

namespace SqlLowering

/-- A scalar function of the host. -/
inductive ScalarFunction where
  -- without arguments
  | currentDate | currentTimestamp | pi | rand | uuid
  -- any number of arguments
  | coalesce | greatest | least | concat | concatWs
  -- numbers
  | abs | ceil | floor | sqrt | exp | ln | log10 | log2 | log | pow | sin | cos | tan | asin
  | acos | atan | atan2 | degrees | radians | sign | round
  -- texts
  | upper | lower | length | trim | lTrim | rTrim | reverse | ascii | hex | unhex | md5 | sha1
  | sha2 | left | right | repeated | substring | lpad | rpad | locate | replace | startsWith
  | endsWith | contains
  -- parts of a date
  | year | quarter | month | dayOfMonth | dayOfYear | dayOfWeek | weekOfYear | hour | minute
  | second | lastDay | toDateOnly
  -- date arithmetic and zones
  | dateAdd | dateSub | addMonths | dateDiff | convertTz | fromUnixTime | unixTimestamp
  -- driven by a format pattern
  | dateFormat | strToDate | toChar | toDate | toTimestamp
  -- composite
  | dayStartInTimezone | stringToDateInTimezone | dayDiff | weekDiff | nextDay | dayOfWeekName
  | fromUnixTimeFormatted
deriving DecidableEq, Repr

/-- How the arguments of a function are laid out. -/
inductive CallShape where
  /-- no arguments -/
  | leaf
  /-- at least so many arguments -/
  | variadic (least : Nat)
  /-- between two numbers of arguments -/
  | fixed (least most : Nat)
  /-- a value and a pattern -/
  | format
  /-- checked where the call is expanded -/
  | composite
deriving DecidableEq, Repr

/-- The number of arguments fits the shape. -/
def CallShape.accepts : CallShape → Nat → Bool
  | leaf, count => count == 0
  | variadic least, count => least ≤ count
  | fixed least most, count => least ≤ count && count ≤ most
  | format, count => count == 2
  | composite, _ => true

namespace ScalarFunction

/-- All scalar functions. -/
def all : List ScalarFunction :=
  [currentDate, currentTimestamp, pi, rand, uuid, coalesce, greatest, least, concat, concatWs,
   abs, ceil, floor, sqrt, exp, ln, log10, log2, log, pow, sin, cos, tan, asin, acos, atan,
   atan2, degrees, radians, sign, round, upper, lower, length, trim, lTrim, rTrim, reverse,
   ascii, hex, unhex, md5, sha1, sha2, left, right, repeated, substring, lpad, rpad, locate,
   replace, startsWith, endsWith, contains, year, quarter, month, dayOfMonth, dayOfYear,
   dayOfWeek, weekOfYear, hour, minute, second, lastDay, toDateOnly, dateAdd, dateSub,
   addMonths, dateDiff, convertTz, fromUnixTime, unixTimestamp, dateFormat, strToDate, toChar,
   toDate, toTimestamp, dayStartInTimezone, stringToDateInTimezone, dayDiff, weekDiff, nextDay,
   dayOfWeekName, fromUnixTimeFormatted]

/-- The name in the JSON form. -/
def name : ScalarFunction → String
  | currentDate => "CurrentDate"
  | currentTimestamp => "CurrentTimestamp"
  | pi => "Pi"
  | rand => "Rand"
  | uuid => "Uuid"
  | coalesce => "Coalesce"
  | greatest => "Greatest"
  | least => "Least"
  | concat => "Concat"
  | concatWs => "ConcatWs"
  | abs => "Abs"
  | ceil => "Ceil"
  | floor => "Floor"
  | sqrt => "Sqrt"
  | exp => "Exp"
  | ln => "Ln"
  | log10 => "Log10"
  | log2 => "Log2"
  | log => "Log"
  | pow => "Pow"
  | sin => "Sin"
  | cos => "Cos"
  | tan => "Tan"
  | asin => "Asin"
  | acos => "Acos"
  | atan => "Atan"
  | atan2 => "Atan2"
  | degrees => "Degrees"
  | radians => "Radians"
  | sign => "Sign"
  | round => "Round"
  | upper => "Upper"
  | lower => "Lower"
  | length => "Length"
  | trim => "Trim"
  | lTrim => "LTrim"
  | rTrim => "RTrim"
  | reverse => "Reverse"
  | ascii => "Ascii"
  | hex => "Hex"
  | unhex => "Unhex"
  | md5 => "Md5"
  | sha1 => "Sha1"
  | sha2 => "Sha2"
  | left => "Left"
  | right => "Right"
  | repeated => "Repeat"
  | substring => "Substring"
  | lpad => "Lpad"
  | rpad => "Rpad"
  | locate => "Locate"
  | replace => "Replace"
  | startsWith => "StartsWith"
  | endsWith => "EndsWith"
  | contains => "Contains"
  | year => "Year"
  | quarter => "Quarter"
  | month => "Month"
  | dayOfMonth => "DayOfMonth"
  | dayOfYear => "DayOfYear"
  | dayOfWeek => "DayOfWeek"
  | weekOfYear => "WeekOfYear"
  | hour => "Hour"
  | minute => "Minute"
  | second => "Second"
  | lastDay => "LastDay"
  | toDateOnly => "ToDateOnly"
  | dateAdd => "DateAdd"
  | dateSub => "DateSub"
  | addMonths => "AddMonths"
  | dateDiff => "DateDiff"
  | convertTz => "ConvertTz"
  | fromUnixTime => "FromUnixTime"
  | unixTimestamp => "UnixTimestamp"
  | dateFormat => "DateFormat"
  | strToDate => "StrToDate"
  | toChar => "ToChar"
  | toDate => "ToDate"
  | toTimestamp => "ToTimestamp"
  | dayStartInTimezone => "DayStartInTimezone"
  | stringToDateInTimezone => "StringToDateInTimezone"
  | dayDiff => "DayDiff"
  | weekDiff => "WeekDiff"
  | nextDay => "NextDay"
  | dayOfWeekName => "DayOfWeekName"
  | fromUnixTimeFormatted => "FromUnixTimeFormatted"

/-- The function of that name. -/
def ofName? (s : String) : Option ScalarFunction :=
  all.find? (·.name == s)

/-- The layout of the arguments. -/
def shape : ScalarFunction → CallShape
  | currentDate | currentTimestamp | pi | rand | uuid => .leaf
  | coalesce | greatest | least | concat => .variadic 1
  | concatWs => .variadic 2
  | dateFormat | strToDate | toChar | toDate | toTimestamp => .format
  | dayStartInTimezone | stringToDateInTimezone | dayDiff | weekDiff | nextDay | dayOfWeekName
  | fromUnixTimeFormatted => .composite
  | round => .fixed 1 2
  | substring => .fixed 2 3
  | log | pow | atan2 | sha2 | left | right | repeated | locate | startsWith | endsWith | contains
  | dateAdd | dateSub | addMonths | dateDiff => .fixed 2 2
  | lpad | rpad | replace | convertTz => .fixed 3 3
  | _ => .fixed 1 1

/-- The function stands for a tree of other calls. -/
def isComposite (f : ScalarFunction) : Bool :=
  f.shape == .composite

/-- The type of the result, given the type of the first argument if there is one. -/
def returnType (first : Option DataType) : ScalarFunction → DataType
  | currentDate | lastDay | toDateOnly | dateAdd | dateSub | addMonths | toDate
  | stringToDateInTimezone | nextDay => .date
  | currentTimestamp | convertTz | fromUnixTime | strToDate | toTimestamp
  | dayStartInTimezone => .timestamp
  | pi | rand | sqrt | exp | ln | log10 | log2 | log | pow | sin | cos | tan | asin | acos | atan
  | atan2 | degrees | radians => .double
  | uuid | concat | concatWs | upper | lower | trim | lTrim | rTrim | reverse | hex | md5 | sha1
  | sha2 | left | right | repeated | substring | lpad | rpad | replace | dateFormat | toChar
  | dayOfWeekName | fromUnixTimeFormatted => .string
  | unhex => .binary
  | startsWith | endsWith | contains => .boolean
  | length | ascii | locate | year | quarter | month | dayOfMonth | dayOfYear | dayOfWeek
  | weekOfYear | hour | minute | second => .integer
  | dateDiff | dayDiff | weekDiff | unixTimestamp | ceil | floor | sign => .long
  | coalesce | greatest | least | abs | round => first.getD .null

end ScalarFunction

end SqlLowering
