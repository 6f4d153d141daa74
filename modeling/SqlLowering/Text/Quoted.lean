/-!
# Quoted identifiers

The target quotes an identifier with backticks; a backtick inside is written twice. No other
character is special, so every name has exactly one quoted form.
-/

namespace SqlLowering.Text

/-- The quote around identifiers. -/
def backtick : Char := '\x60'

/-- The characters of a name with every backtick doubled. -/
def doubleBackticks : List Char → List Char
  | [] => []
  | c :: cs =>
    if c = backtick then backtick :: backtick :: doubleBackticks cs else c :: doubleBackticks cs

/-- A name as the target writes it: in backticks, with the backticks inside doubled. -/
def quoteIdentifier (name : String) : String :=
  String.ofList (backtick :: doubleBackticks name.toList ++ [backtick])

end SqlLowering.Text
