import SqlLowering.Proofs.Contexts
import SqlLowering.Proofs.Places

/-!
# Names below the root

An alias names a column of a select list, so it means something at the root only. Below the root it
is passed through. It is not invisible there: a date pattern or a weekday has to be a string
literal, and an alias around a literal is none. Such a call has no equivalent, while the same call
without the alias may have one.

Main statement: `Expr.lower_stripAliases`. This is the only difference that aliases make. Where an
expression has a result or is an error, the expression without its aliases has the same result or is
the same error, and it leaves the same notes.
-/

namespace SqlLowering

open Dialect

namespace Expr

/-! ## Removing aliases -/

/-- The node under an alias. -/
def dropAlias : Expr → Expr
  | .alias child _ => child
  | e => e

/-- The expression without any of its aliases. -/
def stripAliases (e : Expr) : Expr :=
  dropAlias (e.mapOperands fun c _ => c.stripAliases)
termination_by sizeOf e
decreasing_by exact sizeOf_lt_of_mem_children ‹_›

/-- An alias goes, and with it those below. -/
theorem stripAliases_alias (child : Expr) (name : String) :
    (Expr.alias child name).stripAliases = child.stripAliases := by
  rw [stripAliases, mapOperands, dropAlias]

/-- Every other node stays and has its operands without their aliases. -/
theorem stripAliases_of_ne_alias {e : Expr} (unnamed : ∀ child name, e ≠ .alias child name) :
    e.stripAliases = e.mapOperands fun c _ => c.stripAliases := by
  rw [stripAliases]
  cases e with
  | «alias» child name => exact absurd rfl (unnamed child name)
  | _ => rfl

/-- A node whose operands are changed is an alias only if it was one. -/
theorem mapOperands_ne_alias {e : Expr} (unnamed : ∀ child name, e ≠ .alias child name)
    {g : (c : Expr) → c ∈ e.children → Expr} (child : Expr) (name : String) :
    e.mapOperands g ≠ .alias child name := by
  cases e with
  | «alias» inner other => exact absurd rfl (unnamed inner other)
  | _ => simp [mapOperands]

/-- No part of a stripped expression is an alias. -/
theorem ne_alias_of_hasPart_stripAliases {e c : Expr} (part : e.stripAliases.HasPart c)
    (child : Expr) (name : String) : c ≠ .alias child name := by
  induction e using lowering_induction generalizing c with
  | step e operand _ =>
      by_cases named : ∃ inner other, e = .alias inner other
      · obtain ⟨inner, other, rfl⟩ := named
        rw [stripAliases_alias] at part
        exact operand inner (mem_children_alias inner other) part
      · have unnamed : ∀ inner other, e ≠ .alias inner other :=
          fun inner other same => named ⟨inner, other, same⟩
        rw [stripAliases_of_ne_alias unnamed] at part
        rcases Relation.ReflTransGen.cases_head part with rfl | ⟨below, mem, inside⟩
        · exact mapOperands_ne_alias unnamed child name
        · rw [children_mapOperands] at mem
          obtain ⟨above, there, rfl⟩ := List.mem_map.mp mem
          exact operand above there inside

/-! ## Lowering without aliases -/

open Lowering (Comparison)

variable {ctx : Context}

/-- A call that names its weekday by anything but a string literal has no equivalent. -/
theorem lower_of_unnamed_weekday {f : ScalarFunction} {args : List Expr} {day : Expr}
    (argument : weekdayArgument? f args = some day) (unnamed : day.stringLiteral? = none) :
    (call f args).lower ctx = .untranslatable := by
  unfold weekdayArgument? at argument
  split at argument
  · cases argument
    rw [lower_compositeCall ctx rfl, Composite.expand, Composite.weekday, unnamed]
    rfl
  · cases argument
    rw [lower_compositeCall ctx rfl, Composite.expand, Composite.weekday, unnamed]
    rfl
  · cases argument

/-- If operands keep their string literals, nodes over them name the same weekday, or the first has
no equivalent. -/
theorem weekdayName?_eq_or_missing {e e' : Expr}
    (nodes : NodeRel (Agrees .unlessMissing ctx ctx) e e') :
    e.weekdayName? = e'.weekdayName? ∨ e.lower ctx = .untranslatable := by
  cases nodes with
  | @call args args' f arguments =>
      have related := weekdayArgument?_rel f arguments
      rw [weekdayName?, weekdayName?]
      generalize argument : weekdayArgument? f args = day at related ⊢
      generalize weekdayArgument? f args' = day' at related ⊢
      cases related with
      | none => exact .inl rfl
      | @some a b days =>
          cases literal : a.stringLiteral? with
          | none => exact .inr (lower_of_unnamed_weekday argument literal)
          | some name =>
              have settled : (Lowering.ofOption a.stringLiteral?).outcome ≠ .untranslatable := by
                rw [literal]
                intro missing
                cases missing
              exact .inl (Lowering.ofOption_injective (days.stringLiteral? settled))
  | _ => exact .inl rfl

/-- An expression agrees with what is left of it without aliases, unless it has no equivalent. -/
theorem agrees_stripAliases (ctx : Context) (e : Expr) :
    Agrees .unlessMissing ctx ctx e e.stripAliases := by
  induction e using lowering_induction with
  | step e operand _ =>
      by_cases named : ∃ child name, e = .alias child name
      · obtain ⟨child, name, rfl⟩ := named
        have below := operand child (mem_children_alias child name)
        rw [stripAliases_alias]
        refine ⟨below.dataType, ?_, ?_⟩
        · -- An alias is no string literal, whatever it stands around.
          intro settled
          exact absurd rfl settled
        · rw [lower_alias]
          exact below.lower
      · have unnamed : ∀ child name, e ≠ .alias child name :=
          fun child name same => named ⟨child, name, same⟩
        have nodes : NodeRel (Agrees .unlessMissing ctx ctx) e
            (e.mapOperands fun c _ => c.stripAliases) := .mapOperands e operand
        rw [stripAliases_of_ne_alias unnamed]
        refine .of_nodes nodes ?_
        rcases weekdayName?_eq_or_missing nodes with names | missing
        · exact lower_compare nodes names (Comparison.fits_self _ ctx e fun _ _ => rfl)
        · intro settled
          rw [missing] at settled
          exact absurd rfl settled

/-- Aliases below the root are transparent. An expression that has a result, or is an error, has the
same result or is the same error once all its aliases are removed, with the same notes. And the
result of a root with a name is that of the expression without any alias, with this name after it;
so only the outermost alias is written. -/
theorem lower_stripAliases (ctx : Context) (e : Expr) :
    ((e.lower ctx).outcome ≠ .untranslatable → e.stripAliases.lower ctx = e.lower ctx) ∧
    (∀ name g, ((Expr.alias e name).lowerRoot ctx).outcome = .done g →
      ∃ f, (e.stripAliases.lower ctx).outcome = .done f ∧ g = f.aliased name) ∧
    ∀ c, e.stripAliases.HasPart c → ∀ child name, c ≠ .alias child name := by
  have same (settled : (e.lower ctx).outcome ≠ .untranslatable) :
      e.stripAliases.lower ctx = e.lower ctx :=
    ((agrees_stripAliases ctx e).lower settled).symm
  refine ⟨same, ?_, fun c => ne_alias_of_hasPart_stripAliases⟩
  intro name g done
  rw [lowerRoot, Lowering.outcome_bind] at done
  obtain ⟨f, lowered, written⟩ := Outcome.bind_eq_done.mp done
  cases written
  refine ⟨f, ?_, rfl⟩
  rw [same, lowered]
  rw [lowered]
  intro missing
  cases missing

/-- The year of a date as a text, with a name for the date and a name for the year. -/
def namedYear : Expr :=
  .cast (.alias (.call .dateFormat [.alias (.column ⟨1, "at", none, .date⟩) "day",
    .text "yyyy"]) "year") .string

/-- Neither name is written where the year gets a third one. -/
theorem lower_stripAliases_of_named_year :
    namedYear.stripAliases =
        .cast (.call .dateFormat [.column ⟨1, "at", none, .date⟩, .text "yyyy"]) .string ∧
      (namedYear.lower {}).outcome ≠ .untranslatable ∧
      namedYear.stripAliases.lower {} = namedYear.lower {} ∧
      ∃ f, (namedYear.stripAliases.lower {}).outcome = .done f ∧
        ((Expr.alias namedYear "shown").lowerRoot {}).outcome = .done (f.aliased "shown") := by
  have stripped : namedYear.stripAliases =
      .cast (.call .dateFormat [.column ⟨1, "at", none, .date⟩, .text "yyyy"]) .string := by
    simp only [namedYear, stripAliases, mapOperands, List.pmap, text, ofValue, dropAlias]
  have year : ∃ f, (namedYear.lower {}).outcome = .done f := by
    rw [namedYear, lower_cast, lower_alias, lower_formatFunction _ rfl, lower_alias, lower_column]
    exact ⟨_, rfl⟩
  obtain ⟨f, lowered⟩ := year
  have settled : (namedYear.lower {}).outcome ≠ .untranslatable := by
    rw [lowered]
    intro missing
    cases missing
  have named : ((Expr.alias namedYear "shown").lowerRoot {}).outcome =
      .done (f.aliased "shown") := by
    rw [lowerRoot, Lowering.outcome_bind, lowered]
    rfl
  obtain ⟨kept, root, -⟩ := lower_stripAliases {} namedYear
  obtain ⟨g, inner, same⟩ := root "shown" _ named
  exact ⟨stripped, settled, kept settled, g, inner, same ▸ named⟩

end Expr

end SqlLowering
