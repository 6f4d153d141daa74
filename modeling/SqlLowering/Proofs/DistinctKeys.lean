import SqlLowering.Toml.Reader

/-!
# Keys of tables

No key stands twice in a table of a document, however the table came about: by headers, by dotted
keys, between braces, or as an item of an array of tables. Each way of adding to a table either
finds the key missing or replaces the entry under it (`Entries.IsDistinct.put`), a change at the end
of a path leaves the tables on the way without repeated keys (`Entries.IsDistinct.within`), and so a
document keeps this from statement to statement. Values between braces come out of a scanner, about
which `Scanner.Yields` says what all of its results have in common.

Main statement: `isDistinct_of_parse?`.
-/

namespace SqlLowering

/-! ## Results of scanners -/

namespace Text.Scanner

variable {α β : Type} {P : α → Prop} {Q : β → Prop}

/-- Every result of the scanner has the property. -/
structure Yields (s : Scanner α) (P : α → Prop) : Prop where
  of_run : ∀ cs a rest, s.run cs = some (a, rest) → P a

namespace Yields

/-- Any result will do if the property always holds. -/
theorem of_forall {s : Scanner α} (h : ∀ a, P a) : s.Yields P :=
  ⟨fun _ a _ _ => h a⟩

theorem pure {a : α} (h : P a) : Yields (Pure.pure a) P where
  of_run := by
    intro cs b rest run
    cases run
    exact h

theorem failure : Yields (Alternative.failure : Scanner α) P where
  of_run := by
    intro cs a rest run
    cases run

/-- What the first scanner is known to yield can be used for the second one. -/
theorem bind {s : Scanner α} {f : α → Scanner β} (first : s.Yields P)
    (next : ∀ a, P a → (f a).Yields Q) : (s >>= f).Yields Q where
  of_run := by
    intro cs b rest run
    rw [StateT.run_bind] at run
    obtain ⟨⟨a, middle⟩, before, after⟩ := Option.bind_eq_some_iff.mp run
    exact (next a (first.of_run cs a middle before)).of_run middle b rest after

/-- After a failure nothing is scanned, so nothing is yielded. -/
theorem failure_bind {f : α → Scanner β} : Yields (Alternative.failure >>= f) Q :=
  bind failure fun _ (h : False) => h.elim

theorem ite {c : Prop} [Decidable c] {s t : Scanner α} (yes : s.Yields P) (no : t.Yields P) :
    Yields (if c then s else t) P := by
  split
  · exact yes
  · exact no

/-- What was scanned before need not matter. -/
theorem after {s : Scanner α} {f : α → Scanner β} (next : ∀ a, (f a).Yields Q) :
    (s >>= f).Yields Q :=
  bind (of_forall fun _ => trivial) fun a _ => next a

/-- A choice yields what one of the two yields. -/
theorem orElse {s t : Scanner α} (first : s.Yields P) (second : t.Yields P) :
    (s <|> t).Yields P where
  of_run := by
    intro cs a rest run
    replace run : (s.run cs <|> t.run cs) = some (a, rest) := run
    cases found : s.run cs with
    | none =>
        rw [found] at run
        exact second.of_run cs a rest run
    | some result =>
        rw [found] at run
        cases run
        exact first.of_run cs a rest found

/-- An optional result has the property if there is one. -/
theorem ofOptional {s : Scanner α} (each : s.Yields P) :
    Yields (optional s) fun result => ∀ a ∈ result, P a := by
  apply orElse
  · rw [← bind_pure_comp]
    apply bind each
    intro a found
    apply pure
    intro b mem
    cases mem
    exact found
  · apply pure
    intro a mem
    cases mem

/-- All of the results have the property if one does, however many steps there are. -/
theorem manyWithin {s : Scanner α} (each : s.Yields P) (steps : Nat) :
    (s.manyWithin steps).Yields fun results => ∀ a ∈ results, P a := by
  have empty : Yields (Pure.pure [] : Scanner (List α)) fun results => ∀ a ∈ results, P a :=
    pure fun a mem => by cases mem
  induction steps with
  | zero => exact empty
  | succ steps ih =>
      rw [Scanner.manyWithin]
      apply bind (ofOptional each)
      intro result found
      cases result with
      | none => exact empty
      | some a =>
          apply bind ih
          intro others all
          exact pure (List.forall_mem_cons.mpr ⟨found a rfl, all⟩)

theorem many {s : Scanner α} (each : s.Yields P) :
    s.many.Yields fun results => ∀ a ∈ results, P a :=
  after fun cs => manyWithin each cs.length

/-- The same with dividers between the results, which yield nothing. -/
theorem separated {s : Scanner α} (each : s.Yields P) (divider : Scanner Unit) :
    (s.separated divider).Yields fun results => ∀ a ∈ results, P a := by
  rw [Scanner.separated]
  apply bind each
  intro a first
  apply bind (many (after fun _ => each))
  intro others all
  exact pure (List.forall_mem_cons.mpr ⟨first, all⟩)

end Yields

end Text.Scanner

/-- What every step keeps, a whole run keeps. -/
theorem keeps_foldlM {σ α : Type} {step : σ → α → Option σ} (Kept : σ → Prop) {as : List α}
    (keeps : ∀ a ∈ as, ∀ s next, Kept s → step s a = some next → Kept next) {s last : σ}
    (start : Kept s) (run : as.foldlM step s = some last) : Kept last := by
  induction as generalizing s with
  | nil =>
      cases run
      exact start
  | cons a as ih =>
      obtain ⟨first, others⟩ := List.forall_mem_cons.mp keeps
      rw [List.foldlM_cons] at run
      obtain ⟨next, stepped, run⟩ := Option.bind_eq_some_iff.mp run
      exact ih others (first s next start stepped) run

/-- What is found is there. -/
theorem mem_of_lookup_eq_some {α : Type} {entries : List (String × α)} {key : String} {a : α}
    (found : entries.lookup key = some a) : (key, a) ∈ entries := by
  obtain ⟨before, after, rfl, -⟩ := List.lookup_eq_some_iff.mp found
  exact List.mem_append_right _ List.mem_cons_self

namespace Toml

/-! ## Tables that are being built -/

/-- No table inside the value has two entries under one key. -/
inductive IsDistinct : Toml → Prop
  | string (value : String) : IsDistinct (.string value)
  | integer : IsDistinct .integer
  | float : IsDistinct .float
  | boolean : IsDistinct .boolean
  | datetime (text : String) : IsDistinct (.datetime text)
  | array {items : List Toml} : (∀ v ∈ items, IsDistinct v) → IsDistinct (.array items)
  | table {entries : List (String × Toml)} : (entries.map Prod.fst).Nodup →
      (∀ entry ∈ entries, IsDistinct entry.2) → IsDistinct (.table entries)

/-- A value in a table without repeated keys has none inside either. -/
theorem IsDistinct.of_entry? {entries : List (String × Toml)} {key : String} {v : Toml}
    (h : (Toml.table entries).IsDistinct) (found : entry? entries key = some v) : v.IsDistinct := by
  cases h with
  | table _ each => exact each (key, v) (mem_of_lookup_eq_some found)

/-- No table inside the entry has two entries under one key. -/
inductive Node.IsDistinct : Node → Prop
  | value {v : Toml} : v.IsDistinct → IsDistinct (.value v)
  | table {origin : Origin} {entries : List (String × Node)} : (entries.map Prod.fst).Nodup →
      (∀ entry ∈ entries, IsDistinct entry.2) → IsDistinct (.table origin entries)
  | tables {items : List (List (String × Node))} :
      (∀ entries ∈ items, (entries.map Prod.fst).Nodup) →
      (∀ entries ∈ items, ∀ entry ∈ entries, IsDistinct entry.2) → IsDistinct (.tables items)

namespace Entries

/-- No two entries are under one key, here and in all tables inside. -/
structure IsDistinct (entries : Entries) : Prop where
  nodup : (entries.map Prod.fst).Nodup
  each : ∀ entry ∈ entries, entry.2.IsDistinct

variable {entries : Entries} {key : String} {node : Node}

/-- An empty table has no key that could be repeated. -/
theorem isDistinct_nil : IsDistinct [] where
  nodup := List.nodup_nil
  each _ mem := by cases mem

namespace IsDistinct

/-- A table without repeated keys can be an entry of another one, whichever way it was written. -/
theorem toTable (h : IsDistinct entries) (origin : Origin) :
    (Node.table origin entries).IsDistinct :=
  .table h.nodup h.each

/-- Conversely an entry that is a table has no repeated keys. -/
theorem ofTable {origin : Origin} (h : (Node.table origin entries).IsDistinct) :
    IsDistinct entries := by
  cases h with
  | table nodup each => exact ⟨nodup, each⟩

/-- Each item of an array of tables is a table of its own, so a key may stand in two of them. -/
theorem toTables {items : List Entries} (h : ∀ entries ∈ items, IsDistinct entries) :
    (Node.tables items).IsDistinct :=
  .tables (fun entries mem => (h entries mem).nodup) fun entries mem => (h entries mem).each

theorem ofTables {items : List Entries} (h : (Node.tables items).IsDistinct) :
    ∀ entries ∈ items, IsDistinct entries := by
  cases h with
  | tables nodup each => exact fun entries mem => ⟨nodup entries mem, each entries mem⟩

/-- An entry that is found has no repeated keys inside. -/
theorem of_lookup (h : IsDistinct entries) (found : entries.lookup key = some node) :
    node.IsDistinct :=
  h.each (key, node) (mem_of_lookup_eq_some found)

/-- An entry under a new key can be added. -/
theorem add (h : IsDistinct entries) (missing : entries.lookup key = none) (new : node.IsDistinct) :
    IsDistinct (entries ++ [(key, node)]) where
  nodup := by
    have absent : key ∉ entries.map Prod.fst := by
      intro mem
      obtain ⟨entry, inside, rfl⟩ := List.mem_map.mp mem
      simpa using List.lookup_eq_none_iff.mp missing entry inside
    rw [List.map_append, List.nodup_append]
    refine ⟨h.nodup, by simp, ?_⟩
    intro old inside last mem same
    rw [same, List.mem_singleton.mp mem] at inside
    exact absent inside
  each := by
    intro entry mem
    rcases List.mem_append.mp mem with old | last
    · exact h.each entry old
    · rw [List.mem_singleton.mp last]
      exact new

/-- One entry at a time: its key is new, and neither it nor the rest repeats a key. -/
theorem cons_iff {entry : String × Node} : IsDistinct (entry :: entries) ↔
    entry.1 ∉ entries.map Prod.fst ∧ entry.2.IsDistinct ∧ IsDistinct entries := by
  constructor
  · intro h
    obtain ⟨first, others⟩ := List.nodup_cons.mp h.nodup
    obtain ⟨here, each⟩ := List.forall_mem_cons.mp h.each
    exact ⟨first, here, others, each⟩
  · rintro ⟨first, here, others, each⟩
    exact ⟨List.nodup_cons.mpr ⟨first, others⟩, List.forall_mem_cons.mpr ⟨here, each⟩⟩

/-- No key comes in but the one that the entry is put under. -/
theorem eq_or_mem_of_mem_put {k : String} (mem : k ∈ (Entries.put key node entries).map Prod.fst) :
    k = key ∨ k ∈ entries.map Prod.fst := by
  induction entries with
  | nil => exact .inl (List.mem_singleton.mp mem)
  | cons entry entries ih =>
      rw [Entries.put] at mem
      split at mem
      · exact .inr mem
      · rcases List.mem_cons.mp mem with rfl | mem
        · exact .inr List.mem_cons_self
        · exact (ih mem).imp_right (List.mem_cons_of_mem _)

/-- An entry can be put under any key. -/
theorem put (h : IsDistinct entries) (new : node.IsDistinct) :
    IsDistinct (Entries.put key node entries) := by
  induction entries with
  | nil => exact cons_iff.mpr ⟨List.not_mem_nil, new, h⟩
  | cons entry entries ih =>
      obtain ⟨first, here, others⟩ := cons_iff.mp h
      rw [Entries.put]
      split
      · exact cons_iff.mpr ⟨first, new, others⟩
      · rename_i other
        apply cons_iff.mpr
        refine ⟨?_, here, ih others⟩
        intro mem
        rcases eq_or_mem_of_mem_put mem with same | mem
        · exact other same
        · exact first mem

/-- A change at the end of a path keeps all keys distinct if it does so where it is made. -/
theorem within {byKey : Bool} {change : Origin → Entries → Option Entries}
    (step : ∀ origin before after, IsDistinct before → change origin before = some after →
      IsDistinct after) {path : List String} {origin : Origin} {after : Entries}
    (h : IsDistinct entries)
    (changed : Entries.within byKey change path origin entries = some after) :
    IsDistinct after := by
  induction path generalizing origin entries after with
  | nil => exact step origin entries after h changed
  | cons key path ih =>
      rw [Entries.within] at changed
      split at changed
      · -- The table is missing and made from nothing.
        obtain ⟨inner, below, ⟨⟩⟩ := Option.bind_eq_some_iff.mp changed
        exact h.put ((ih isDistinct_nil below).toTable _)
      · rename_i origin inner found
        split at changed
        · cases changed
        · obtain ⟨new, below, ⟨⟩⟩ := Option.bind_eq_some_iff.mp changed
          exact h.put ((ih (ofTable (h.of_lookup found)) below).toTable _)
      · rename_i latest earlier found
        obtain ⟨new, below, ⟨⟩⟩ := Option.bind_eq_some_iff.mp changed
        obtain ⟨first, others⟩ := List.forall_mem_cons.mp (ofTables (h.of_lookup found))
        exact h.put (toTables (List.forall_mem_cons.mpr ⟨ih first below, others⟩))
      · cases changed

/-- A value is inserted under a key only if the key is missing in the table at the end of the path.
-/
theorem insert {path : List String} {v : Toml} (new : v.IsDistinct) {origin : Origin}
    {after : Entries} (h : IsDistinct entries)
    (inserted : Entries.insert path key v origin entries = some after) : IsDistinct after := by
  apply within _ h inserted
  intro origin before after distinct changed
  split at changed
  · cases changed
  · rename_i free
    cases changed
    have missing := Option.not_isSome_iff_eq_none.mp (not_or.mp free).2
    exact distinct.add missing (.value new)

/-- A header opens a table that is missing, or one that was made on the way to another, and keeps
its entries. -/
theorem openTable {after : Entries} (h : IsDistinct entries)
    (opened : Entries.openTable key entries = some after) : IsDistinct after := by
  rw [Entries.openTable] at opened
  split at opened
  · rename_i missing
    cases opened
    exact h.add missing (isDistinct_nil.toTable _)
  · rename_i inner found
    cases opened
    exact h.put ((ofTable (h.of_lookup found)).toTable _)
  · cases opened

/-- A header for an item begins an empty table in front of the items that are there. -/
theorem openItem {after : Entries} (h : IsDistinct entries)
    (opened : Entries.openItem key entries = some after) : IsDistinct after := by
  rw [Entries.openItem] at opened
  split at opened
  · rename_i missing
    cases opened
    exact h.add missing (toTables (List.forall_mem_singleton.mpr isDistinct_nil))
  · rename_i items found
    cases opened
    have items := ofTables (h.of_lookup found)
    exact h.put (toTables (List.forall_mem_cons.mpr ⟨isDistinct_nil, items⟩))
  · cases opened

end IsDistinct

end Entries

/-! ## Finished tables -/

/-- Finishing a table finishes its entries one by one, under their keys. -/
theorem entriesToToml_eq_map (entries : Entries) :
    entriesToToml entries = entries.map fun entry => (entry.1, entry.2.toToml) := by
  induction entries with
  | nil => rw [entriesToToml, List.map_nil]
  | cons entry entries ih => rw [entriesToToml, ih, List.map_cons]

/-- Finishing an array of tables finishes its items one by one. -/
theorem tablesToToml_eq_map (items : List Entries) :
    tablesToToml items = items.map fun entries => .table (entriesToToml entries) := by
  induction items with
  | nil => rw [tablesToToml, List.map_nil]
  | cons entries items ih => rw [tablesToToml, ih, List.map_cons]

/-- A table keeps its keys when it is finished. -/
theorem isDistinct_entriesToToml {entries : Entries} (nodup : (entries.map Prod.fst).Nodup)
    (each : ∀ entry ∈ entries, entry.2.toToml.IsDistinct) :
    (Toml.table (entriesToToml entries)).IsDistinct := by
  rw [entriesToToml_eq_map]
  constructor
  · rw [List.map_map]
    exact nodup
  · intro entry mem
    obtain ⟨built, inside, rfl⟩ := List.mem_map.mp mem
    exact each built inside

/-- An entry without repeated keys has none when it is finished, by induction on how it was built.
-/
theorem Node.IsDistinct.toToml {node : Node} (h : node.IsDistinct) : node.toToml.IsDistinct := by
  induction h with
  | value distinct =>
      rw [Node.toToml]
      exact distinct
  | table nodup _ ih =>
      rw [Node.toToml]
      exact isDistinct_entriesToToml nodup ih
  | tables nodup _ ih =>
      rw [Node.toToml, tablesToToml_eq_map]
      constructor
      intro v mem
      obtain ⟨entries, inside, rfl⟩ := List.mem_map.mp (List.mem_reverse.mp mem)
      exact isDistinct_entriesToToml (nodup entries inside) (ih entries inside)

/-- The whole table, by the same for each of its entries. -/
theorem Entries.IsDistinct.toToml {entries : Entries} (h : IsDistinct entries) :
    (Toml.table (entriesToToml entries)).IsDistinct :=
  isDistinct_entriesToToml h.nodup fun entry mem => (h.each entry mem).toToml

/-! ## Documents -/

/-- The value in a statement has no table with a repeated key. -/
def Statement.IsDistinct : Statement → Prop
  | .entry _ _ value => value.IsDistinct
  | .table _ _ | .item _ _ => True

/-- Each statement changes one table at the end of a path, so it keeps the keys of all tables
distinct. -/
theorem Document.isDistinct_step {doc next : Document} {statement : Statement}
    (h : Entries.IsDistinct doc.entries) (distinct : statement.IsDistinct)
    (step : doc.step statement = some next) : Entries.IsDistinct next.entries := by
  cases statement with
  | entry path key value =>
      obtain ⟨entries, changed, ⟨⟩⟩ := Option.bind_eq_some_iff.mp step
      exact h.within (fun _ _ _ before inserted => before.insert distinct inserted) changed
  | table path key =>
      obtain ⟨entries, changed, ⟨⟩⟩ := Option.bind_eq_some_iff.mp step
      exact h.within (fun _ _ _ before opened => before.openTable opened) changed
  | item path key =>
      obtain ⟨entries, changed, ⟨⟩⟩ := Option.bind_eq_some_iff.mp step
      exact h.within (fun _ _ _ before opened => before.openItem opened) changed

/-- A document begins with an empty table, and every statement keeps the keys distinct. -/
theorem isDistinct_of_ofStatements? {statements : List Statement} {entries : List (String × Toml)}
    (distinct : ∀ s ∈ statements, s.IsDistinct) (built : ofStatements? statements = some entries) :
    (Toml.table entries).IsDistinct := by
  obtain ⟨doc, run, ⟨⟩⟩ := Option.bind_eq_some_iff.mp built
  have last : Entries.IsDistinct doc.entries :=
    keeps_foldlM (fun doc => Entries.IsDistinct doc.entries)
      (fun s mem _ _ before step => Document.isDistinct_step before (distinct s mem) step)
      Entries.isDistinct_nil run
  exact last.toToml

/-! ## Values in a text -/

namespace Read

open Text.Scanner

theorem yields_boolean : Yields boolean IsDistinct :=
  .after fun _ => .pure .boolean

theorem yields_datetime : Yields datetime IsDistinct := by
  apply Yields.orElse
  · exact .after fun _ => .after fun _ => .pure (.datetime _)
  · exact .after fun _ => .pure (.datetime _)

/-- All floats are the same value here, as only their form is checked. -/
theorem yields_float : Yields float IsDistinct := by
  apply Yields.after
  intro sign
  apply Yields.orElse (.after fun _ => .pure .float)
  apply Yields.orElse (.after fun _ => .pure .float)
  apply Yields.after
  intro whole
  apply Yields.after
  intro fraction
  apply Yields.after
  intro power
  exact .ite .failure_bind (.ite .failure_bind (.pure .float))

theorem yields_markedInteger (mark : Char) (isDigit : Char → Bool) (value : List Char → Nat) :
    Yields (markedInteger mark isDigit value) IsDistinct :=
  .after fun _ => .after fun _ => .ite (.pure .integer) .failure

theorem yields_decimalInteger : Yields decimalInteger IsDistinct :=
  .after fun _ => .after fun _ => .ite (.pure .integer) .failure

theorem yields_integer : Yields integer IsDistinct :=
  .orElse (yields_markedInteger _ _ _) (.orElse (yields_markedInteger _ _ _)
    (.orElse (yields_markedInteger _ _ _) yields_decimalInteger))

/-- A value that is no array and no table has no keys. -/
theorem yields_scalar : Yields scalar IsDistinct :=
  .orElse (.after fun _ => .pure (.string _)) (yields_boolean.orElse (yields_datetime.orElse
    (yields_float.orElse yields_integer)))

/-- The items of an array are values of their own. -/
theorem yields_array {value : Text.Scanner Toml} (each : Yields value IsDistinct) :
    Yields (array value) IsDistinct := by
  have items : Yields (do gap; let v ← value; gap; pure v) IsDistinct :=
    .after fun _ => .bind each fun v distinct => .after fun _ => .pure distinct
  apply Yields.after
  intro _
  apply Yields.bind
    (Yields.ofOptional (.bind (items.separated _) fun vs all => .after fun _ => .pure all))
  intro found all
  apply Yields.after
  intro _
  apply Yields.after
  intro _
  apply Yields.pure
  apply IsDistinct.array
  cases found with
  | none =>
      intro v mem
      cases mem
  | some vs => exact all vs rfl

/-- Of an assignment only the value is looked at, as its key is not in a table yet. -/
theorem yields_assignment {value : Text.Scanner Toml} (each : Yields value IsDistinct) :
    Yields (assignment value) fun a => a.2.2.IsDistinct := by
  apply Yields.after
  intro key
  apply Yields.after
  intro _
  apply Yields.after
  intro _
  apply Yields.bind each
  intro v distinct
  exact .after fun _ => .pure distinct

/-- A table between braces is built from its assignments in the same way as a document from its
statements. -/
theorem yields_inlineTable {value : Text.Scanner Toml} (each : Yields value IsDistinct) :
    Yields (inlineTable value) IsDistinct := by
  apply Yields.after
  intro _
  apply Yields.bind (Yields.ofOptional ((yields_assignment each).separated _))
  intro found all
  apply Yields.after
  intro _
  apply Yields.after
  intro _
  have distinct : ∀ a ∈ found.getD [], a.2.2.IsDistinct := by
    cases found with
    | none =>
        intro a mem
        cases mem
    | some assignments => exact all assignments rfl
  dsimp only
  split
  · rename_i entries run
    have last : Entries.IsDistinct entries :=
      keeps_foldlM Entries.IsDistinct
        (fun a mem _ _ before inserted => before.insert (distinct a mem) inserted)
        Entries.isDistinct_nil run
    exact .pure last.toToml
  · exact .failure

/-- Arrays and tables are scanned with less room inside, so this goes by induction on the room. -/
theorem yields_value (room : Nat) : Yields (value room) IsDistinct := by
  induction room with
  | zero => exact yields_scalar
  | succ room ih => exact (yields_array ih).orElse ((yields_inlineTable ih).orElse yields_scalar)

/-- A header has no value, and an assignment has one that was scanned. -/
theorem yields_statement : Yields statement Statement.IsDistinct := by
  apply Yields.orElse
  · exact .after fun _ => .after fun _ => .after fun _ => .pure trivial
  · apply Yields.orElse
    · exact .after fun _ => .after fun _ => .after fun _ => .pure trivial
    · exact .bind (yields_assignment (yields_value nesting)) fun _ distinct => .pure distinct

/-- A document is its lines, each with a statement or with none. -/
theorem yields_document : Yields document fun statements => ∀ s ∈ statements, s.IsDistinct := by
  have lines : Yields line fun found => ∀ s ∈ found, s.IsDistinct :=
    .after fun _ => .bind (.ofOptional yields_statement) fun _ distinct =>
      .after fun _ => .after fun _ => .pure distinct
  apply Yields.after
  intro _
  apply Yields.bind (lines.separated newline)
  intro found all
  apply Yields.pure
  intro s mem
  obtain ⟨result, inside, same⟩ := List.mem_filterMap.mp mem
  exact all result inside s same

end Read

/-- No key stands twice in a table of a document. -/
theorem isDistinct_of_parse? {text : String} {entries : List (String × Toml)}
    (read : parse? text = some entries) : (Toml.table entries).IsDistinct := by
  obtain ⟨statements, scanned, built⟩ := Option.bind_eq_some_iff.mp read
  obtain ⟨⟨_, rest⟩, run, rfl⟩ := Option.map_eq_some_iff.mp scanned
  have distinct : Text.Scanner.Yields (do let a ← Read.document; Text.Scanner.atEnd; pure a)
      fun statements => ∀ s ∈ statements, s.IsDistinct :=
    .bind Read.yields_document fun _ all => .after fun _ => .pure all
  exact isDistinct_of_ofStatements? (distinct.of_run _ _ _ run) built

end Toml

end SqlLowering
