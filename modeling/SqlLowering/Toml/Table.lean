import SqlLowering.Toml.Basic

/-!
# Building tables

The statements of a document fill one table. A table may be defined once by a header; a header for
tables inside it may come before. Tables that dotted keys made are closed to headers, and tables
with a header are closed to dotted keys. An array of tables grows by one table with each of its
headers, and later headers reach into the latest one.
-/

namespace SqlLowering.Toml

/-- How a table came about. -/
inductive Origin where
  /-- by its own header -/
  | header
  /-- by the header of a table inside it -/
  | implied
  /-- by a dotted key -/
  | dotted
deriving DecidableEq

/-- An entry of a table that is being built. -/
inductive Node where
  | value (v : Toml)
  | table (origin : Origin) (entries : List (String × Node))
  /-- an array of tables, the latest one first -/
  | tables (items : List (List (String × Node)))

/-- The entries of a table that is being built. -/
abbrev Entries := List (String × Node)

/-- Replace the entry under a key, or add one. -/
def Entries.put (key : String) (node : Node) : Entries → Entries
  | [] => [(key, node)]
  | (k, n) :: entries => if k = key then (k, node) :: entries else (k, n) :: put key node entries

/-- Change the table at the end of a path. Tables missing on the way are made; `byKey` says
whether the path belongs to a dotted key or to a header. -/
def Entries.within (byKey : Bool) (change : Origin → Entries → Option Entries) :
    List String → Origin → Entries → Option Entries
  | [], origin, entries => change origin entries
  | key :: path, _, entries =>
    match entries.lookup key with
    | none => do
      let origin := if byKey then .dotted else .implied
      pure (put key (.table origin (← within byKey change path origin [])) entries)
    | some (.table origin inner) => do
      if byKey ∧ origin = .header then none
      pure (put key (.table origin (← within byKey change path origin inner)) entries)
    | some (.tables (latest :: earlier)) => do
      pure (put key (.tables ((← within byKey change path .header latest) :: earlier)) entries)
    | _ => none

/-- Add a value under a dotted key. The table of a key with a path must have been made by such
keys. -/
def Entries.insert (path : List String) (key : String) (v : Toml) (origin : Origin)
    (entries : Entries) : Option Entries :=
  within true (fun origin entries =>
    if (origin == .dotted) == path.isEmpty ∨ (entries.lookup key).isSome then none
    else some (entries ++ [(key, .value v)])) path origin entries

/-- Open a table by its header. -/
def Entries.openTable (key : String) (entries : Entries) : Option Entries :=
  match entries.lookup key with
  | none => some (entries ++ [(key, .table .header [])])
  | some (.table .implied inner) => some (put key (.table .header inner) entries)
  | _ => none

/-- Add a table to an array of tables. -/
def Entries.openItem (key : String) (entries : Entries) : Option Entries :=
  match entries.lookup key with
  | none => some (entries ++ [(key, .tables [[]])])
  | some (.tables items) => some (put key (.tables ([] :: items)) entries)
  | _ => none

mutual

/-- The value of a finished entry. -/
def Node.toToml : Node → Toml
  | .value v => v
  | .table _ entries => .table (entriesToToml entries)
  | .tables items => .array (tablesToToml items).reverse

/-- The values of finished entries. -/
def entriesToToml : List (String × Node) → List (String × Toml)
  | [] => []
  | (key, node) :: entries => (key, node.toToml) :: entriesToToml entries

/-- The values of finished tables. -/
def tablesToToml : List (List (String × Node)) → List Toml
  | [] => []
  | entries :: items => .table (entriesToToml entries) :: tablesToToml items

end

/-- A statement of a document. -/
inductive Statement where
  | entry (path : List String) (key : String) (value : Toml)
  | table (path : List String) (key : String)
  | item (path : List String) (key : String)

/-- A document part of the way: the path of the latest header, and the entries so far. -/
structure Document where
  header : List String := []
  entries : Entries := []

/-- Carry out a statement. -/
def Document.step (doc : Document) : Statement → Option Document
  | .entry path key value => do
    let insert := Entries.insert path key value
    let entries ← Entries.within false insert doc.header .header doc.entries
    pure { doc with entries }
  | .table path key => do
    let entries ← Entries.within false (fun _ => Entries.openTable key) path .header doc.entries
    pure ⟨path ++ [key], entries⟩
  | .item path key => do
    let entries ← Entries.within false (fun _ => Entries.openItem key) path .header doc.entries
    pure ⟨path ++ [key], entries⟩

/-- The table that the statements of a document define. -/
def ofStatements? (statements : List Statement) : Option (List (String × Toml)) := do
  let doc ← statements.foldlM Document.step {}
  pure (entriesToToml doc.entries)

end SqlLowering.Toml
