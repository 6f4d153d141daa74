import SqlLowering.Command.Run
import SqlLowering.Proofs.DistinctKeys
import SqlLowering.Proofs.Equations

/-!
# The context of a configuration

The columns of a configuration are a table, and a table has no order. They are mapped one after the
other in any order, and the first one without an identifier ends this with an error. Still the
context does not depend on the order: no name stands twice in the table, so every name is found
under the same identifier, and whether there is an error at all depends only on the entries. Only
the column that the error names depends on the order, when several have no identifier.

The version is read when the configuration is, and again when it is given on the command line, so it
never fails when the context is made.

Main statement: `Config.context_of_ofText`.
-/

namespace SqlLowering

open Dialect

/-! ## Looking up in any order -/

section Lookup

variable {entries order : List (String × String)} {key value : String}

/-- Where no key stands twice, an entry is found exactly if it is there. -/
theorem lookup_eq_some_iff_mem (nodup : (entries.map Prod.fst).Nodup) :
    entries.lookup key = some value ↔ (key, value) ∈ entries := by
  refine ⟨mem_of_lookup_eq_some, ?_⟩
  intro mem
  obtain ⟨before, after, rfl⟩ := List.append_of_mem mem
  apply List.lookup_eq_some_iff.mpr
  refine ⟨before, after, rfl, ?_⟩
  intro entry earlier
  rw [List.map_append, List.nodup_append] at nodup
  have other := nodup.2.2 entry.1 (List.mem_map_of_mem earlier) key List.mem_cons_self
  exact bne_iff_ne.mpr other.symm

/-- The order of the entries does not matter for what is found, as there is one entry for a key. -/
theorem lookup_eq_of_perm (nodup : (entries.map Prod.fst).Nodup) (perm : order.Perm entries) :
    order.lookup key = entries.lookup key := by
  have nodup' : (order.map Prod.fst).Nodup := (perm.map Prod.fst).nodup_iff.mpr nodup
  apply Option.ext
  intro value
  rw [lookup_eq_some_iff_mem nodup', lookup_eq_some_iff_mem nodup, perm.mem_iff]

/-- Hence a map resolves all columns alike in whatever order it was filled. -/
theorem Dialect.ColumnMap.resolver_eq_of_perm (nodup : (entries.map Prod.fst).Nodup)
    (perm : order.Perm entries) :
    ColumnMap.resolver { byName := order } = ColumnMap.resolver { byName := entries } := by
  funext ref
  rw [ColumnMap.resolver, ColumnMap.resolver, ColumnMap.identifier?, ColumnMap.identifier?,
    lookup_eq_of_perm nodup perm]

end Lookup

namespace Config

/-! ## Mapping columns -/

section Mapping

variable {m : ColumnMap} {columns : List (String × String)}

/-- If each column has an identifier, all of them are mapped, the last one in front. -/
theorem mapColumns_of_filled (filled : ∀ column ∈ columns, column.2 ≠ "") :
    mapColumns m columns = .ok { m with byName := columns.reverse ++ m.byName } := by
  induction columns generalizing m with
  | nil => rfl
  | cons column columns ih =>
      obtain ⟨first, others⟩ := List.forall_mem_cons.mp filled
      rw [mapColumns, if_neg (by simpa using first), ih others, List.reverse_cons,
        List.append_assoc]
      rfl

/-- A column without an identifier ends the mapping with an error that names such a column. -/
theorem mapColumns_of_empty (empty : ∃ name, (name, "") ∈ columns) :
    ∃ name, (name, "") ∈ columns ∧ mapColumns m columns = .error (.emptyIdentifier name) := by
  induction columns generalizing m with
  | nil =>
      obtain ⟨name, mem⟩ := empty
      cases mem
  | cons column columns ih =>
      obtain ⟨name, identifier⟩ := column
      rw [mapColumns]
      by_cases here : identifier = ""
      · rw [if_pos (by simp [here])]
        exact ⟨name, here ▸ List.mem_cons_self, rfl⟩
      · rw [if_neg (by simpa using here)]
        -- The column without an identifier stands further on.
        obtain ⟨other, mem⟩ := empty
        rcases List.mem_cons.mp mem with same | later
        · cases same
          exact absurd rfl here
        · obtain ⟨first, inside, result⟩ := ih ⟨other, later⟩
          exact ⟨first, List.mem_cons_of_mem _ inside, result⟩

end Mapping

/-! ## Reading a configuration -/

/-- A list that is converted entry by entry has the same keys, if each entry keeps its own. -/
theorem map_fst_of_mapM {f : String × Toml → Option (String × String)}
    (keeps : ∀ entry column, f entry = some column → column.1 = entry.1)
    {entries : List (String × Toml)} {columns : List (String × String)}
    (read : entries.mapM f = some columns) : columns.map Prod.fst = entries.map Prod.fst := by
  induction entries generalizing columns with
  | nil =>
      rw [List.mapM_nil] at read
      cases read
      rfl
  | cons entry entries ih =>
      rw [List.mapM_cons] at read
      obtain ⟨column, first, read⟩ := Option.bind_eq_some_iff.mp read
      obtain ⟨others, rest, ⟨⟩⟩ := Option.bind_eq_some_iff.mp read
      rw [List.map_cons, List.map_cons, ih rest, keeps entry column first]

/-- The names of columns differ, as the keys of the table do. -/
theorem nodup_of_columns? {found : Option Toml} {columns : List (String × String)}
    (distinct : ∀ v ∈ found, v.IsDistinct) (read : columns? found = some columns) :
    (columns.map Prod.fst).Nodup := by
  cases found with
  | none =>
      cases read
      exact List.nodup_nil
  | some v =>
      cases distinct v rfl with
      | table nodup =>
          have same := map_fst_of_mapM (fun entry column converted => by
            obtain ⟨identifier, -, ⟨⟩⟩ := Option.bind_eq_some_iff.mp converted
            rfl) read
          rw [same]
          exact nodup
      | datetime text =>
          cases read
          simp
      | string | integer | float | boolean | array => cases read

/-- The columns are one entry of the document, so their names differ if the keys of the document do.
-/
theorem nodup_of_ofTable? {entries : List (String × Toml)} {c : Config}
    (distinct : (Toml.table entries).IsDistinct) (filled : ofTable? entries = some c) :
    (c.columns.map Prod.fst).Nodup := by
  obtain ⟨declared, -, filled⟩ := Option.bind_eq_some_iff.mp filled
  obtain ⟨columns, read, filled⟩ := Option.bind_eq_some_iff.mp filled
  obtain ⟨filter, -, ⟨⟩⟩ := Option.bind_eq_some_iff.mp filled
  apply nodup_of_columns? _ read
  intro v found
  exact distinct.of_entry? found

/-- A configuration that was read has a version, and its columns have different names. -/
theorem of_ofText {text : String} {c : Config} (read : ofText text = .ok c) :
    (∃ v, c.version = .ok v) ∧ (c.columns.map Prod.fst).Nodup := by
  -- The equation of `ofText` would compare the whole reader with itself.
  delta ofText at read
  cases document : (Toml.parse? text).bind ofTable? with
  | none =>
      rw [document] at read
      cases read
  | some config =>
      rw [document] at read
      obtain ⟨entries, parsed, filled⟩ := Option.bind_eq_some_iff.mp document
      cases version : config.version with
      | error e =>
          simp only [version] at read
          cases read
      | ok v =>
          simp only [version] at read
          cases read
          exact ⟨⟨v, version⟩, nodup_of_ofTable? (Toml.isDistinct_of_parse? parsed) filled⟩

/-- An accepted version on the command line goes before the configured one, and nothing else
changes. -/
theorem of_withVersion {c used : Config} {override : Option String}
    (given : Command.withVersion c override = .ok used) :
    used = { c with declared := override <|> c.declared } ∧
      ((∃ v, c.version = .ok v) → ∃ v, used.version = .ok v) := by
  cases override with
  | none =>
      cases given
      exact ⟨rfl, id⟩
  | some text =>
      rw [Command.withVersion] at given
      cases parsed : Version.parse text with
      | error e =>
          rw [parsed] at given
          cases given
      | ok v =>
          rw [parsed] at given
          cases given
          exact ⟨rfl, fun _ => ⟨v, parsed⟩⟩

/-! ## Making the context -/

/-- The resolver of configured columns. -/
def resolver (c : Config) : Resolver :=
  if c.columns = [] then quotedColumns else ColumnMap.resolver { byName := c.columns }

section Context

variable {c : Config} {v : Version} {order : List (String × String)}

/-- With a known version the context fails only where the mapping does, and without columns nothing
is mapped. -/
theorem context_eq (known : c.version = .ok v) :
    c.context = if c.columns.isEmpty then .ok { version := v } else
      (mapColumns .empty c.columns).map fun m => { version := v, resolver := m.resolver } := by
  rw [context, known]
  show (if c.columns.isEmpty then _ else _) = _
  split
  · rfl
  · cases mapColumns .empty c.columns <;> rfl

/-- In any order of the columns the same context is made, if all of them have an identifier. -/
theorem context_of_filled (known : c.version = .ok v) (nodup : (c.columns.map Prod.fst).Nodup)
    (filled : ∀ name, (name, "") ∉ c.columns) (perm : order.Perm c.columns) :
    ({ c with columns := order } : Config).context = .ok ⟨v, c.resolver⟩ := by
  have filled' : ∀ column ∈ order, column.2 ≠ "" := by
    rintro ⟨name, identifier⟩ mem empty
    cases empty
    exact filled name (perm.mem_iff.mp mem)
  have known' : ({ c with columns := order } : Config).version = .ok v := known
  rw [context_eq known', mapColumns_of_filled filled', resolver]
  by_cases unmapped : c.columns = []
  · rw [unmapped] at perm
    rw [if_pos unmapped, if_pos (List.isEmpty_iff.mpr perm.eq_nil)]
  · have nonempty : order ≠ [] := by
      intro empty
      exact unmapped (empty ▸ perm).nil_eq.symm
    -- Each column is put in front of those before it, so the map has them backwards.
    have reversed : order.reverse.Perm c.columns := order.reverse_perm.trans perm
    rw [if_neg unmapped, if_neg (by simpa using nonempty)]
    simp only [Except.map, ColumnMap.empty, List.append_nil,
      ColumnMap.resolver_eq_of_perm nodup reversed]

/-- In any order the mapping ends with an error, if a column has no identifier. -/
theorem context_of_empty (known : c.version = .ok v) (empty : ∃ name, (name, "") ∈ c.columns)
    (perm : order.Perm c.columns) :
    ∃ name, (name, "") ∈ c.columns ∧
      ({ c with columns := order } : Config).context = .error (.emptyIdentifier name) := by
  have known' : ({ c with columns := order } : Config).version = .ok v := known
  obtain ⟨name, mem, result⟩ : ∃ name, (name, "") ∈ order ∧
      mapColumns .empty order = .error (.emptyIdentifier name) := by
    apply mapColumns_of_empty
    obtain ⟨name, mem⟩ := empty
    exact ⟨name, perm.mem_iff.mpr mem⟩
  have nonempty : order ≠ [] := List.ne_nil_of_mem mem
  refine ⟨name, perm.mem_iff.mp mem, ?_⟩
  rw [context_eq known', if_neg (by simpa using nonempty)]
  dsimp only
  rw [result]
  rfl

end Context

/-! ## Columns under a configuration -/

/-- The text of a column under its own names. -/
def ownText (ref : ColumnRef) : String :=
  (ref.qualifier.elim "" fun q => Text.quoteIdentifier q ++ ".") ++ Text.quoteIdentifier ref.name

section Columns

variable {c : Config} {v : Version} {ref : ColumnRef}

/-- A column is lowered as the resolver has it, and to nothing else. -/
theorem outcome_column : ((Expr.column ref).lower ⟨v, c.resolver⟩).outcome =
    .ofOption (c.resolver ref) := by
  rw [Expr.lower_column]
  rfl

/-- Without a configured column, each is written under its own names, in quotes. -/
theorem lower_column_of_nil (unmapped : c.columns = []) :
    ∃ f, ((Expr.column ref).lower ⟨v, c.resolver⟩).outcome = .done f ∧
      f.render = ⟨ownText ref, []⟩ := by
  rw [outcome_column, resolver, if_pos unmapped, quotedColumns, ownText]
  cases ref.qualifier with
  | none => exact ⟨_, rfl, by simp [Fragment.render, Fragment.sql, Fragment.params]⟩
  | some q =>
      refine ⟨_, rfl, ?_⟩
      simp [Fragment.render, Fragment.concat, Fragment.join, Fragment.sql, Fragment.sqlOfParts,
        Fragment.sqlAfter, Fragment.params, Fragment.paramsOfParts, String.append_assoc]

/-- With configured columns, a column is looked up by its dotted name. -/
theorem resolver_of_ne_nil (mapped : c.columns ≠ []) :
    c.resolver ref = (c.columns.lookup ref.displayName).map .ident := by
  rw [resolver, if_neg mapped]
  rfl

/-- A configured column is written under its identifier, in quotes and without its own names. -/
theorem lower_column_of_mem (nodup : (c.columns.map Prod.fst).Nodup) {identifier : String}
    (mem : (ref.displayName, identifier) ∈ c.columns) :
    ∃ f, ((Expr.column ref).lower ⟨v, c.resolver⟩).outcome = .done f ∧
      f.render = ⟨Text.quoteIdentifier identifier, []⟩ := by
  rw [outcome_column, resolver_of_ne_nil (List.ne_nil_of_mem mem),
    (lookup_eq_some_iff_mem nodup).mpr mem]
  exact ⟨.ident identifier, rfl, by simp [Fragment.render, Fragment.sql, Fragment.params]⟩

/-- With configured columns, any other one has no text: there is no way back to its own names. -/
theorem lower_column_of_not_mem (nodup : (c.columns.map Prod.fst).Nodup)
    (mapped : c.columns ≠ []) (hidden : ∀ identifier, (ref.displayName, identifier) ∉ c.columns) :
    ((Expr.column ref).lower ⟨v, c.resolver⟩).outcome = .untranslatable := by
  have missing : c.columns.lookup ref.displayName = none := by
    apply Option.eq_none_iff_forall_not_mem.mpr
    intro identifier found
    exact hidden identifier ((lookup_eq_some_iff_mem nodup).mp found)
  rw [outcome_column, resolver_of_ne_nil mapped, missing]
  rfl

end Columns

/-- The context of a configuration that was read, with or without an accepted version on the command
line. In every order of the columns it can be made unless a column has no identifier, and then the
error names such a column. Otherwise it is one context for all orders, so that every expression is
lowered in the same way: for the version on the command line, or else the configured one, or else
the latest, and with each column under the identifier for its dotted name and no others, or with all
of them under their own names if none is configured. -/
theorem context_of_ofText {text : String} {c used : Config} {override : Option String}
    (read : ofText text = .ok c) (given : Command.withVersion c override = .ok used) :
    (∀ order, order.Perm c.columns →
      ((∃ e, { used with columns := order }.context = .error e) ↔
        ∃ name, (name, "") ∈ c.columns) ∧
      ∀ e, { used with columns := order }.context = .error e →
        ∃ name, (name, "") ∈ c.columns ∧ e = .emptyIdentifier name) ∧
    ((∀ name, (name, "") ∉ c.columns) → ∃ ctx : Context,
      (∀ order, order.Perm c.columns → { used with columns := order }.context = .ok ctx) ∧
      (∀ t ∈ override <|> c.declared, Version.parse t = .ok ctx.version) ∧
      ((override <|> c.declared) = none → ctx.version = .latest) ∧
      ∀ ref : ColumnRef,
        (c.columns = [] → ∃ f, ((Expr.column ref).lower ctx).outcome = .done f ∧
          f.render = ⟨ownText ref, []⟩) ∧
        (∀ identifier, (ref.displayName, identifier) ∈ c.columns →
          ∃ f, ((Expr.column ref).lower ctx).outcome = .done f ∧
            f.render = ⟨Text.quoteIdentifier identifier, []⟩) ∧
        (c.columns ≠ [] → (∀ identifier, (ref.displayName, identifier) ∉ c.columns) →
          ((Expr.column ref).lower ctx).outcome = .untranslatable)) := by
  obtain ⟨configured, nodup⟩ := of_ofText read
  obtain ⟨rfl, keeps⟩ := of_withVersion given
  obtain ⟨v, known⟩ := keeps configured
  constructor
  · intro order perm
    by_cases empty : ∃ name, (name, "") ∈ c.columns
    · obtain ⟨name, mem, failed⟩ := context_of_empty known empty perm
      refine ⟨⟨fun _ => empty, fun _ => ⟨_, failed⟩⟩, ?_⟩
      intro e result
      rw [failed] at result
      cases result
      exact ⟨name, mem, rfl⟩
    · have made := context_of_filled known nodup (not_exists.mp empty) perm
      rw [made]
      simp [empty]
  · intro filled
    refine ⟨_, fun order perm => context_of_filled known nodup filled perm, ?_, ?_, ?_⟩
    · intro t declared
      rw [version, Option.mem_def.mp declared] at known
      exact known
    · intro undeclared
      rw [version, undeclared] at known
      cases known
      rfl
    · intro ref
      exact ⟨lower_column_of_nil, fun _ => lower_column_of_mem nodup, lower_column_of_not_mem nodup⟩

/-- With two columns, either order gives one context for the version on the command line, in which a
mapped column has its identifier and another column has no text. If the identifiers of both are
empty, the error names one of the two in either order. -/
theorem context_of_ofText_of_two_columns :
    (∃ c ctx,
      ofText "dialect.version = \"7.5\"\n[columns]\n\"t.total\" = \"x\"\nid = \"k\"" = .ok c ∧
      (∀ order ∈ [c.columns, c.columns.reverse],
        ({ c with declared := some "8", columns := order } : Config).context = .ok ctx) ∧
      Version.parse "8" = .ok ctx.version ∧
      (∃ f, ((Expr.column ⟨1, "total", some "t", .long⟩).lower ctx).outcome = .done f ∧
        f.render = ⟨Text.quoteIdentifier "x", []⟩) ∧
      ((Expr.column ⟨2, "total", none, .long⟩).lower ctx).outcome = .untranslatable) ∧
    ∃ c, ofText "[columns]\ntotal = \"\"\nid = \"\"" = .ok c ∧
      ∀ order ∈ [c.columns, c.columns.reverse], ∃ name ∈ ["total", "id"],
        ({ c with columns := order } : Config).context = .error (.emptyIdentifier name) := by
  have perm {columns order : List (String × String)} (mem : order ∈ [columns, columns.reverse]) :
      order.Perm columns := by
    rcases List.mem_pair.mp mem with rfl | rfl
    · exact .refl _
    · exact List.reverse_perm _
  constructor
  · have read : ofText "dialect.version = \"7.5\"\n[columns]\n\"t.total\" = \"x\"\nid = \"k\"" =
        .ok ⟨some "7.5", [("t.total", "x"), ("id", "k")], "pushdown=info"⟩ := by decide +kernel
    have given : Command.withVersion ⟨some "7.5", [("t.total", "x"), ("id", "k")], "pushdown=info"⟩
        (some "8") = .ok ⟨some "8", [("t.total", "x"), ("id", "k")], "pushdown=info"⟩ := by
      decide +kernel
    obtain ⟨-, made⟩ := context_of_ofText read given
    obtain ⟨ctx, same, version, -, columns⟩ := made (by simp)
    refine ⟨_, ctx, read, fun order mem => same order (perm mem), version "8" rfl, ?_, ?_⟩
    · exact (columns ⟨1, "total", some "t", .long⟩).2.1 "x" (by decide)
    · exact (columns ⟨2, "total", none, .long⟩).2.2 (by simp) (by simp [ColumnRef.displayName])
  · have read : ofText "[columns]\ntotal = \"\"\nid = \"\"" =
        .ok ⟨none, [("total", ""), ("id", "")], "pushdown=info"⟩ := by decide +kernel
    have given : Command.withVersion ⟨none, [("total", ""), ("id", "")], "pushdown=info"⟩ none =
        .ok ⟨none, [("total", ""), ("id", "")], "pushdown=info"⟩ := rfl
    obtain ⟨failed, -⟩ := context_of_ofText read given
    refine ⟨_, read, ?_⟩
    intro order mem
    obtain ⟨fails, names⟩ := failed order (perm mem)
    obtain ⟨e, result⟩ := fails.mpr ⟨"id", by simp⟩
    obtain ⟨name, empty, rfl⟩ := names e result
    exact ⟨name, by simpa using empty, result⟩

end Config

end SqlLowering
