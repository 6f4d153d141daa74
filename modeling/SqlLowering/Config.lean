import SqlLowering.Dialect.Context
import SqlLowering.Error
import SqlLowering.Toml.Reader

/-!
# Configuration

A configuration names the version of the dialect, the identifiers of columns, and a filter for log
messages. Everything may be left out. When columns are named, only those are visible to the target.
-/

namespace SqlLowering

open Dialect

/-- Read a version, or say which text is none. -/
def Dialect.Version.parse (text : String) : Except Error Version :=
  match Version.parse? text with
  | some v => .ok v
  | none => .error (.invalidVersion text)

/-- What a configuration file can say. No two columns have the same name. -/
structure Config where
  /-- the version as it is written -/
  declared : Option String := none
  /-- dotted names of columns and their identifiers -/
  columns : List (String × String) := []
  logFilter : String := "pushdown=info"
deriving DecidableEq

namespace Config

/-- The member under which a point in time appears where a table is expected. -/
def datetimeKey : String := "$__toml_private_datetime"

/-- The only field of a section, from a table or from the items of an array. A point in time is
taken for a table with one entry. -/
def sectionField? (key : String) : Toml → Option (Option Toml)
  | .table entries => some (Toml.entry? entries key)
  | .array items => some items.head?
  | .datetime _ => some none
  | _ => none

/-- A string. -/
def string? : Toml → Option String
  | .string s => some s
  | _ => none

/-- The declared version of the dialect section. An array must have it. -/
def declared? : Option Toml → Option (Option String)
  | none => some none
  | some dialect => do
    match ← sectionField? "version" dialect, dialect with
    | some v, _ => pure (some (← string? v))
    | none, .array _ => none
    | none, _ => pure none

/-- The filter of the log section. -/
def logFilter? : Option Toml → Option String
  | none => some "pushdown=info"
  | some log => do
    match ← sectionField? "filter" log with
    | some v => string? v
    | none => pure "pushdown=info"

/-- The columns section: a table of strings. -/
def columns? : Option Toml → Option (List (String × String))
  | none => some []
  | some (.table entries) => entries.mapM fun (name, v) => do pure (name, ← string? v)
  | some (.datetime text) => some [(datetimeKey, text)]
  | some _ => none

/-- The configuration of a document, if its values have the right types. -/
def ofTable? (entries : List (String × Toml)) : Option Config := do
  pure
    { declared := ← declared? (Toml.entry? entries "dialect")
      columns := ← columns? (Toml.entry? entries "columns")
      logFilter := ← logFilter? (Toml.entry? entries "log") }

/-- The version of the dialect, the latest one unless another is declared. -/
def version (c : Config) : Except Error Version :=
  match c.declared with
  | some text => Version.parse text
  | none => .ok .latest

/-- Read a configuration. A version that is none is noticed at once. -/
def ofText (text : String) : Except Error Config := do
  match (Toml.parse? text).bind ofTable? with
  | some c =>
    let _ ← c.version
    pure c
  | none => .error .malformedToml

/-- Map columns one after the other. The first without an identifier ends this. -/
def mapColumns (m : ColumnMap) : List (String × String) → Except Error ColumnMap
  | [] => .ok m
  | (name, identifier) :: columns =>
    if identifier.isEmpty then .error (.emptyIdentifier name)
    else mapColumns (m.insertName name identifier) columns

/-- The context of a configuration. An identifier must not be empty. -/
def context (c : Config) : Except Error Context := do
  let version ← c.version
  if c.columns.isEmpty then
    pure { version }
  else
    let columns ← mapColumns .empty c.columns
    pure { version, resolver := columns.resolver }

end Config

end SqlLowering
