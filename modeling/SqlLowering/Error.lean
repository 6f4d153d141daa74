/-!
# Errors

What can go wrong besides an expression having no equivalent. Each error is kept by its cause; its
wording is in one place.
-/

namespace SqlLowering

/-- The cause of a failure. -/
inductive Error where
  | unknownWeekday (name : String)
  | invalidVersion (text : String)
  /-- a configured column without an identifier -/
  | emptyIdentifier (column : String)
  /-- a file that cannot be read -/
  | unreadable
  /-- a configuration that is not well-formed or has values of other types -/
  | malformedToml
  /-- a JSON value that is not well-formed or does not describe what it should -/
  | malformedJson
deriving DecidableEq, Repr

/-- The wording of an error. -/
def Error.message : Error → String
  | .unknownWeekday name =>
    "Unknown weekday: '" ++ name ++ "'. Expected a day name such as MO, MON or MONDAY"
  | .invalidVersion text =>
    "Invalid dialect version: '" ++ text ++ "'. Expected MAJOR[.MINOR[.PATCH]]"
  | .emptyIdentifier column =>
    "Configuration error: column '" ++ column ++ "' maps to an empty identifier"
  | .unreadable => "the file cannot be read"
  | .malformedToml => "the configuration is malformed"
  | .malformedJson => "the JSON value is malformed"

end SqlLowering
