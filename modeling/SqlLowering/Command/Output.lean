import SqlLowering.Codec.Value
import SqlLowering.Dialect.Context
import SqlLowering.Format.Mode
import SqlLowering.Json.Writer

/-!
# What the commands print

A lowered expression is shown as lines for people or as a JSON object with sorted members. Every
output ends with a line break.
-/

namespace SqlLowering.Command

open Dialect Format

/-- Several lines. -/
def lines (texts : List String) : String :=
  String.join (texts.map (· ++ "\n"))

/-- The JSON form of a parameter. -/
def parameterJson (p : Parameter) : Json :=
  .object [("value", p.value.toJson), ("data_type", p.dataType.toJson)]

/-- The text of a parameter: its value and, in parentheses, its type. -/
def parameterText (p : Parameter) : String :=
  p.value.text ++ " (" ++ p.dataType.text ++ ")"

/-- The line of a parameter with its number. -/
def parameterLine (index : Nat) (p : Parameter) : String :=
  "  ?" ++ Text.natText (index + 1) ++ " " ++ parameterText p

/-- A lowered expression as lines, with its parameters below if there are any. -/
def loweredText (version : Version) : Option Rendered → String
  | none =>
    lines ["✗ expression has no equivalent on dialect " ++ version.text ++ "; it stays on the host"]
  | some ⟨sql, []⟩ => lines [sql]
  | some ⟨sql, params⟩ => lines ([sql, "", "Parameters:"] ++ params.mapIdx parameterLine)

/-- A lowered expression as a JSON object. -/
def loweredJson (version : Version) (rendered : Option Rendered) : Json :=
  .object
    [("dialect_version", .string version.text),
     ("translatable", .bool rendered.isSome),
     ("sql", .ofOption (rendered.map (.string ·.sql))),
     ("params", .array ((rendered.elim [] (·.params)).map parameterJson))]

/-- The conversion of a date pattern. -/
def formatText (notice : Notice) : String :=
  lines [notice.pattern ++ " → " ++ notice.output]

/-- The line of a feature, with its name filled up to 24 characters. -/
def featureLine (version : Version) (f : Feature) : String :=
  let mark := if version.supports f then "✓" else "✗"
  let filling := String.ofList (List.replicate (24 - f.text.length) ' ')
  "  " ++ mark ++ " " ++ f.text ++ filling ++ " (since " ++ f.since.text ++ ")"

/-- All features and whether the version has them. -/
def featuresText (version : Version) : String :=
  lines (["Dialect version: " ++ version.text, ""] ++ Feature.all.map (featureLine version))

end SqlLowering.Command
