/-!
# TOML values

A document is a table. Numbers are kept without their values, because a configuration has none; what
matters is only that they are not strings.
-/

namespace SqlLowering

/-- A TOML value. A point in time is kept in its normal spelling. -/
inductive Toml where
  | string (value : String)
  | integer
  | float
  | boolean
  | datetime (text : String)
  | array (items : List Toml)
  | table (entries : List (String × Toml))

namespace Toml

/-- The value under a key of a table. -/
def entry? (entries : List (String × Toml)) (key : String) : Option Toml :=
  entries.lookup key

end Toml

end SqlLowering
