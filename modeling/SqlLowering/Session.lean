import SqlLowering.Config
import SqlLowering.Lowering.Root

/-!
# Sessions

A session lowers one expression after another under settings that change in between: the
version, a mapping of columns, and whether that mapping is used.
-/

namespace SqlLowering

open Dialect

/-- The settings of a session. -/
structure Session where
  version : Version := .latest
  columns : ColumnMap := .empty
  useMap : Bool := false

namespace Session

/-- A change of the settings. -/
inductive Change where
  | version (text : String)
  | mapId (id : UInt64) (identifier : String)
  | mapName (name identifier : String)
  | useMap
  | useOwnNames
  | clearMap

/-- Carry out a change; a version that is none changes nothing. -/
def apply (s : Session) : Change → Except Error Session
  | .version text => do pure { s with version := ← Version.parse text }
  | .mapId id identifier => .ok { s with columns := s.columns.insertId id identifier }
  | .mapName name identifier => .ok { s with columns := s.columns.insertName name identifier }
  | .useMap => .ok { s with useMap := true }
  | .useOwnNames => .ok { s with useMap := false }
  | .clearMap => .ok { s with columns := .empty }

/-- The context of the present settings. -/
def context (s : Session) : Context :=
  { version := s.version, resolver := if s.useMap then s.columns.resolver else quotedColumns }

end Session

end SqlLowering
