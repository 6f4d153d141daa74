import SqlLowering.Format.Specifier
import SqlLowering.Format.Symbol

/-!
# Converting date patterns

The target has two languages of date patterns. Every conversion is noted down with its mode, the
pattern and the result.
-/

namespace SqlLowering.Format

/-- A language of date patterns on the target. -/
inductive Mode where
  | symbol
  | specifier
deriving DecidableEq, Repr

namespace Mode

/-- The name shown to people. -/
def text : Mode → String
  | symbol => "symbol"
  | specifier => "specifier"

/-- The mode of that name. -/
def ofText? : String → Option Mode
  | "symbol" => some symbol
  | "specifier" => some specifier
  | _ => none

/-- Convert a pattern of the host. -/
def convert : Mode → String → String
  | symbol, pattern => toSymbols pattern
  | specifier, pattern => toSpecifiers pattern

end Mode

/-- The note of one conversion. -/
structure Notice where
  mode : Mode
  pattern : String
  output : String
deriving DecidableEq

/-- The note of converting a pattern. -/
def Mode.notice (mode : Mode) (pattern : String) : Notice :=
  ⟨mode, pattern, mode.convert pattern⟩

end SqlLowering.Format
