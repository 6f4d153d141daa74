import SqlLowering.Expr.Typing
import SqlLowering.Lowering.Rule

/-!
# Function calls

Most functions of the host have a counterpart of the same arguments on the target. The others
differ: functions without arguments, date arithmetic with an interval, functions with a date
pattern, and tests on the ends or the inside of a text. Composite calls are lowered through the
tree they stand for.
-/

namespace SqlLowering.Rule

open Fragment Dialect Format

/-- All arguments of a call, in order. -/
def arguments {f : ScalarFunction} {args : List Expr} (d : Descent (.call f args)) :
    Lowering (List Fragment) :=
  Lowering.each args fun c h => d.child c h

/-- A composite call, by the tree it stands for. -/
def compositeCall : Rule
  | _, .call f args, d =>
    match h : (Expr.call f args).expansion with
    | .done tree => d.expansion tree h
    | .untranslatable => .untranslatable
    | .unknownWeekday name => .ofOutcome (.unknownWeekday name)
  | _, _, _ => .untranslatable

/-- The target's name of a function that takes any number of arguments. -/
def variadicName? : ScalarFunction → Option String
  | .coalesce => some "COALESCE"
  | .greatest => some "GREATEST"
  | .least => some "LEAST"
  | .concat => some "CONCAT"
  | .concatWs => some "CONCAT_WS"
  | _ => none

/-- Functions of any number of arguments. -/
def variadicFunction : Rule
  | _, .call f args, d => do
    let name ← Lowering.ofOption (variadicName? f)
    Lowering.require (f.shape.accepts args.length)
    pure (func name (← arguments d))
  | _, _, _ => .untranslatable

/-- A function without arguments, if the target has it. -/
def leafCall? (ctx : Context) : ScalarFunction → Option Fragment
  | .currentDate => some (func "CURRENT_DATE" [])
  | .currentTimestamp => some (.raw "NOW(6)")
  | .pi => some (func "PI" [])
  | .rand => some (func "RAND" [])
  | .uuid => if ctx.supports .uuid then some (func "UUID" []) else none
  | _ => none

/-- Functions without arguments. -/
def leafFunction : Rule
  | ctx, .call f [], _ => .ofOption (leafCall? ctx f)
  | _, _, _ => .untranslatable

/-- The target's name of a function with the same arguments there. -/
def scalarName? : ScalarFunction → Option String
  | .abs => some "ABS"
  | .ceil => some "CEIL"
  | .floor => some "FLOOR"
  | .sqrt => some "SQRT"
  | .exp => some "EXP"
  | .ln => some "LN"
  | .log10 => some "LOG10"
  | .log2 => some "LOG2"
  | .log => some "LOG"
  | .pow => some "POWER"
  | .sin => some "SIN"
  | .cos => some "COS"
  | .tan => some "TAN"
  | .asin => some "ASIN"
  | .acos => some "ACOS"
  | .atan => some "ATAN"
  | .atan2 => some "ATAN2"
  | .degrees => some "DEGREES"
  | .radians => some "RADIANS"
  | .sign => some "SIGN"
  | .round => some "ROUND"
  | .upper => some "UPPER"
  | .lower => some "LOWER"
  | .length => some "CHAR_LENGTH"
  | .trim => some "TRIM"
  | .lTrim => some "LTRIM"
  | .rTrim => some "RTRIM"
  | .reverse => some "REVERSE"
  | .ascii => some "ASCII"
  | .hex => some "HEX"
  | .unhex => some "UNHEX"
  | .md5 => some "MD5"
  | .sha1 => some "SHA1"
  | .sha2 => some "SHA2"
  | .left => some "LEFT"
  | .right => some "RIGHT"
  | .repeated => some "REPEAT"
  | .substring => some "SUBSTRING"
  | .lpad => some "LPAD"
  | .rpad => some "RPAD"
  | .locate => some "LOCATE"
  | .replace => some "REPLACE"
  | .year => some "YEAR"
  | .quarter => some "QUARTER"
  | .month => some "MONTH"
  | .dayOfMonth => some "DAYOFMONTH"
  | .dayOfYear => some "DAYOFYEAR"
  | .dayOfWeek => some "DAYOFWEEK"
  | .weekOfYear => some "WEEKOFYEAR"
  | .hour => some "HOUR"
  | .minute => some "MINUTE"
  | .second => some "SECOND"
  | .lastDay => some "LAST_DAY"
  | .toDateOnly => some "DATE"
  | .dateDiff => some "DATEDIFF"
  | .convertTz => some "CONVERT_TZ"
  | .fromUnixTime => some "FROM_UNIXTIME"
  | .unixTimestamp => some "UNIX_TIMESTAMP"
  | _ => none

/-- Rounding an approximate number goes to the even neighbour on the target and away from zero on
the host, so there is no equivalent. -/
def roundsApproximate (f : ScalarFunction) (args : List Expr) : Bool :=
  f == .round && (args.head?.map (·.dataType.isApproximate)).getD false

/-- Functions with the same arguments on the target. -/
def scalarFunction : Rule
  | _, .call f args, d => do
    let name ← Lowering.ofOption (scalarName? f)
    Lowering.require (f.shape.accepts args.length)
    Lowering.require (!roundsApproximate f args)
    pure (func name (← arguments d))
  | _, _, _ => .untranslatable

/-- The target's name and the unit of a function that moves a date. -/
def dateArithmeticName? : ScalarFunction → Option (String × String)
  | .dateAdd => some ("DATE_ADD", "DAY")
  | .dateSub => some ("DATE_SUB", "DAY")
  | .addMonths => some ("DATE_ADD", "MONTH")
  | _ => none

/-- Functions that move a date by a number of units. -/
def dateArithmetic : Rule
  | _, .call f [date, amount], d => do
    let (name, unit) ← Lowering.ofOption (dateArithmeticName? f)
    let start ← d.child date (Expr.first_mem_children f date amount)
    let distance ← d.child amount (Expr.second_mem_children f date amount)
    pure (func name [start, words [.raw "INTERVAL", distance, .raw unit]])
  | _, _, _ => .untranslatable

/-- The target's name and the pattern language of a function with a date pattern. -/
def formatName? : ScalarFunction → Option (String × Mode)
  | .dateFormat => some ("DATE_FORMAT", .symbol)
  | .strToDate => some ("STR_TO_DATE", .symbol)
  | .toChar => some ("TO_CHAR", .specifier)
  | .toDate => some ("TO_DATE", .specifier)
  | .toTimestamp => some ("TO_TIMESTAMP", .specifier)
  | _ => none

/-- Functions with a date pattern, which must be a string literal. The converted pattern is bound.
-/
def formatFunction : Rule
  | ctx, .call f [input, pattern], d => do
    let (name, mode) ← Lowering.ofOption (formatName? f)
    Lowering.require (mode == .symbol || ctx.supports .specifierFormats)
    let letters ← Lowering.ofOption pattern.stringLiteral?
    let formatted ← d.child input (Expr.first_mem_children f input pattern)
    let converted ← Lowering.convert mode letters
    pure (func name [formatted, bindText converted])
  | _, _, _ => .untranslatable

/-- A test of one text against another, by position or by comparison of one end. -/
def textTest? : ScalarFunction → Option (Fragment → Fragment → List Fragment)
  | .contains => some fun text part => [func "LOCATE" [part, text], .raw ">", .int 0]
  | .startsWith =>
    some fun text part => [func "LEFT" [text, func "CHAR_LENGTH" [part]], .raw "=", part]
  | .endsWith =>
    some fun text part => [func "RIGHT" [text, func "CHAR_LENGTH" [part]], .raw "=", part]
  | _ => none

/-- Tests on the ends or the inside of a text. -/
def textPredicate : Rule
  | _, .call f [text, part], d => do
    let test ← Lowering.ofOption (textTest? f)
    let whole ← d.child text (Expr.first_mem_children f text part)
    let sought ← d.child part (Expr.second_mem_children f text part)
    pure (parenthesize (words (test whole sought)))
  | _, _, _ => .untranslatable

end SqlLowering.Rule
