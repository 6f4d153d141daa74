import SqlLowering.Toml.Scalar
import SqlLowering.Toml.Table

/-!
# Reading TOML

Version 1.0 of the format: one statement a line, arrays over several lines, tables inside a value on
one line and without a comma at the end.
-/

namespace SqlLowering.Toml.Read

open Text Text.Scanner

/-- Blanks, line breaks and comments. -/
def gap : Scanner Unit := do
  let _ ← many <|
    (do let _ ← takeWhile1 isBlank) <|> newline <|> do
      comment
      newline

/-- An array of values, perhaps with a comma at its end. -/
def array (value : Scanner Toml) : Scanner Toml := do
  char '['
  let items ← optional do
    let items ← separated (do gap; let v ← value; gap; pure v) (char ',')
    let _ ← optional (char ',')
    pure items
  gap
  char ']'
  pure (.array (items.getD []))

/-- A key with its value. -/
def assignment (value : Scanner Toml) : Scanner (List String × String × Toml) := do
  let (path, key) ← key
  char '='
  blanks
  let v ← value
  blanks
  pure (path, key, v)

/-- A table inside a value. -/
def inlineTable (value : Scanner Toml) : Scanner Toml := do
  char '\x7b'
  let assignments ← optional (separated (assignment value) (char ','))
  blanks
  char '\x7d'
  let insert (entries : Entries) (a : List String × String × Toml) : Option Entries :=
    Entries.insert a.1 a.2.1 a.2.2 .header entries
  match (assignments.getD []).foldlM insert [] with
  | some entries => pure (.table (entriesToToml entries))
  | none => failure

/-- A value with so many arrays and tables inside each other at most. -/
def value : Nat → Scanner Toml
  | 0 => scalar
  | room + 1 => array (value room) <|> inlineTable (value room) <|> scalar

/-- A statement. -/
def statement : Scanner Statement :=
  (do
    exactly ['[', '[']
    let (path, key) ← key
    exactly [']', ']']
    pure (.item path key)) <|>
  (do
    char '['
    let (path, key) ← key
    char ']'
    pure (.table path key)) <|>
  (do
    let (path, key, v) ← assignment (value nesting)
    pure (.entry path key v))

/-- A line without its end. -/
def line : Scanner (Option Statement) := do
  blanks
  let s ← optional statement
  blanks
  let _ ← optional comment
  pure s

/-- The statements of a document, which may begin with a byte order mark. -/
def document : Scanner (List Statement) := do
  let _ ← optional (char '\uFEFF')
  let lines ← separated line newline
  pure (lines.filterMap id)

end Read

/-- Read a document. -/
def parse? (text : String) : Option (List (String × Toml)) :=
  (Read.document.parse? text).bind ofStatements?

end SqlLowering.Toml
