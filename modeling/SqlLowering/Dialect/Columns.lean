import SqlLowering.Expr.Basic
import SqlLowering.Fragment

/-!
# Names of columns on the target

A resolver says how a column of the host is written, or that the target cannot see it. Without a
mapping every column is written with its own names. With one, a column is found by its number first
and by its dotted name second, and all others stay hidden.
-/

namespace SqlLowering.Dialect

/-- How a column is written on the target, if it is visible there. -/
abbrev Resolver := ColumnRef → Option Fragment

/-- Every column under its own names: qualifier, point, name. -/
def quotedColumns : Resolver := fun c =>
  match c.qualifier with
  | some q => some (.concat (.ident q) (.ident c.name) ".")
  | none => some (.ident c.name)

/-- Identifiers for columns, by number and by dotted name. A later entry stands before an earlier
one for the same column. -/
structure ColumnMap where
  byId : List (UInt64 × String) := []
  byName : List (String × String) := []

namespace ColumnMap

/-- No column is mapped. -/
def empty : ColumnMap := {}

/-- There are no entries. -/
def isEmpty (m : ColumnMap) : Bool :=
  m.byId.isEmpty && m.byName.isEmpty

/-- Map the column of a number. -/
def insertId (m : ColumnMap) (id : UInt64) (identifier : String) : ColumnMap :=
  { m with byId := (id, identifier) :: m.byId }

/-- Map the column of a dotted name. -/
def insertName (m : ColumnMap) (name identifier : String) : ColumnMap :=
  { m with byName := (name, identifier) :: m.byName }

/-- The identifier of a column, if it is mapped. -/
def identifier? (m : ColumnMap) (c : ColumnRef) : Option String :=
  m.byId.lookup c.id <|> m.byName.lookup c.displayName

/-- The mapped columns under their identifiers, and no others. -/
def resolver (m : ColumnMap) : Resolver := fun c =>
  (m.identifier? c).map .ident

end ColumnMap

end SqlLowering.Dialect
