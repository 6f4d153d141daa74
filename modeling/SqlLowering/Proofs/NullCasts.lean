import SqlLowering.Proofs.FilteredAggregates

/-!
# Casts of null

A cast is written in eight ways, and in all but one of them null stays null: a cast of the target,
a truncation and a comparison are null where their operand is. The exception is a truth value as a
text. It is written as a choice between the words `true` and `false`, and a choice takes its second
value where its condition is null, so null becomes the word `false`.

`Target.IsStrict` is what is assumed of the target beside the meaning of `IF`. Nested casts are
followed from the inside to the outside: as long as none of them spells out a truth value, the
outermost one still has a null before it.

Main statement: `Expr.value_casts_of_null`.
-/

namespace SqlLowering

open Dialect Fragment Conversion

variable {ρ ν : Type} {ctx : Context}

/-- A cast, a truncation and a comparison of null are null. -/
structure Target.IsStrict (t : Target ρ ν) : Prop where
  cast : ∀ row operand type, t.value row operand = none →
    t.value row (castAs operand type) = none
  truncate : ∀ row operand, t.value row operand = none → t.value row (truncated operand) = none
  differ : ∀ row left right, t.value row left = none →
    t.value row (parenthesize (words [left, .raw "!=", right])) = none

namespace Conversion

/-- The cast is written with the words for a truth value. -/
def SpellsOut (source target : DataType) : Prop :=
  source = .boolean ∧ target = .string

instance (source target : DataType) : Decidable (SpellsOut source target) :=
  inferInstanceAs (Decidable (_ ∧ _))

/-- No other conversion is written with the words for a truth value. -/
theorem spellsOut_of_convert? {operand : Fragment} {source target : DataType}
    (h : convert? operand source target =
      some (Rule.ifElse operand (bindText "true") (bindText "false"))) :
    SpellsOut source target := by
  cases target with
  | string =>
      rw [convert?] at h
      split_ifs at h with boolean
      · exact ⟨boolean, rfl⟩
      · simp [castAs, Rule.ifElse, func, join] at h
  | null | binary | interval => cases h
  | _ =>
      rw [convert?] at h
      split_ifs at h <;> simp [castAs, Rule.ifElse, func, join, parenthesize] at h

/-- What becomes of null in a conversion. -/
theorem value_convert?_of_null {t : Target ρ ν} (strict : t.IsStrict) {operand f : Fragment}
    {source target : DataType} (h : convert? operand source target = some f) {row : ρ}
    (null : t.value row operand = none) :
    t.value row f =
      if SpellsOut source target then t.value row (bindText "false") else none := by
  by_cases spells : SpellsOut source target
  · rw [if_pos spells]
    obtain ⟨rfl, rfl⟩ := spells
    cases h
    rw [Target.value_ifElse, Target.holds, null]
    rfl
  · rw [if_neg spells]
    cases form_of_convert? h with
    | spelled => exact absurd (spellsOut_of_convert? h) spells
    | cut => exact strict.cast row _ _ (strict.truncate row operand null)
    | cast mem => exact strict.cast row operand _ null
    | decimal precision scale => exact strict.cast row operand _ null
    | compared => exact strict.differ row operand _ null

end Conversion

namespace Expr

/-- The expression under casts to these types, the first of them innermost. -/
def casts (e : Expr) (targets : List DataType) : Expr :=
  targets.foldl .cast e

/-- A cast that has a result has an operand with a result, and this becomes of null in it. -/
theorem value_cast_of_null {t : Target ρ ν} (strict : t.IsStrict) {child : Expr}
    {target : DataType} {f : Fragment} (done : ((cast child target).lower ctx).outcome = .done f)
    (row : ρ) :
    ∃ x, (child.lower ctx).outcome = .done x ∧ (t.value row x = none → t.value row f =
      if SpellsOut child.dataType target then t.value row (bindText "false") else none) := by
  obtain ⟨lowered, assembled⟩ := (lower_eq_done_iff (by intro h; cases h)).mp done
  have operand := (lowered child (mem_children_cast child target)).outcome_eq
  refine ⟨child.fragment ctx, operand, ?_⟩
  intro null
  rw [assemble] at assembled
  split_ifs at assembled with same
  · -- The operand has the type already, so it is passed on, and nothing is spelled out.
    cases assembled
    have plain : ¬ SpellsOut child.dataType target := by
      rintro ⟨boolean, rfl⟩
      rw [boolean] at same
      cases same
    rw [if_neg plain, null]
  · exact value_convert?_of_null strict assembled null

/-- Where an expression is null, a cast of it is null, unless it writes a truth value as a text:
that is the word `false`. Any number of other casts may stand between the two. -/
theorem value_casts_of_null (t : Target ρ ν) (strict : t.IsStrict) {e : Expr}
    {inner : List DataType} {target : DataType} {f : Fragment}
    (plain : (e.dataType :: inner).IsChain fun source target => ¬ SpellsOut source target)
    (done : ((cast (e.casts inner) target).lower ctx).outcome = .done f) (row : ρ) :
    ∃ x, (e.lower ctx).outcome = .done x ∧ (t.value row x = none → t.value row f =
      if SpellsOut (e.casts inner).dataType target then t.value row (bindText "false")
      else none) := by
  induction inner generalizing e with
  | nil => exact value_cast_of_null strict done row
  | cons first inner ih =>
      obtain ⟨here, rest⟩ := List.isChain_cons_cons.mp plain
      have typed : (cast e first).dataType = first := by rw [dataType]
      rw [← typed] at rest
      obtain ⟨y, middle, outer⟩ := ih rest done
      obtain ⟨x, operand, step⟩ := value_cast_of_null strict middle row
      refine ⟨x, operand, ?_⟩
      intro null
      apply outer
      rw [step null, if_neg here]

end Expr

/-- The text of a flag as a number, and of casts of it. -/
def Target.flagText : Fragment → Option Bool → Option String
  | .ident _, row => row.map fun flag => if flag then "1" else "0"
  | .bound ⟨.string s, _⟩, _ => some s
  | .composite [.raw "CAST(", operand, .raw " AS ", _, .raw ")"] "" false, row =>
    flagText operand row
  | _, _ => none

/-- Rows of one flag, which may be null; values are texts. -/
def Target.flags : Target (Option Bool) String where
  word text _ := text
  other := flagText
  isTrue s := s = "1"
  count := Text.natText
  aggregate _ _ := none

/-- What is null has no text as a flag, and words and choices never have one. -/
theorem Target.flagText_of_null {row : Option Bool} {f : Fragment}
    (null : flags.value row f = none) : flagText f row = none := by
  unfold value at null
  split at null
  · rfl
  · rfl
  · exact null

/-- The assumptions hold of this target, so they are not empty. -/
theorem Target.isStrict_flags : flags.IsStrict where
  cast row operand _ null := show flagText operand row = none from flagText_of_null null
  truncate _ _ _ := rfl
  differ _ _ _ _ := rfl

/-- A null flag as a number is null, also when that is written as a text; the flag itself as a text
is the word `false`. -/
theorem Expr.value_casts_of_null_of_flag :
    (∃ f, ((cast ((column ⟨1, "flag", none, .boolean⟩).casts [.long]) .string).lower {}).outcome =
        .done f ∧ Target.flags.value none f = none) ∧
      ∃ f, ((cast (column ⟨1, "flag", none, .boolean⟩) .string).lower {}).outcome = .done f ∧
        Target.flags.value none f = some "false" := by
  have column :
      ((column ⟨1, "flag", none, .boolean⟩).lower {}).outcome = .done (.ident "flag") := by
    rw [lower_column]
    rfl
  constructor
  · have done : ((cast ((Expr.column ⟨1, "flag", none, .boolean⟩).casts [.long]) .string).lower
        {}).outcome = .done (castAs (castAs (.ident "flag") (.raw "SIGNED")) (.raw "CHAR")) := by
      rw [lower_cast, casts, List.foldl_cons, List.foldl_nil, lower_cast, lower_column]
      rfl
    obtain ⟨x, lowered, kept⟩ :=
      value_casts_of_null Target.flags Target.isStrict_flags (by decide) done none
    rw [column] at lowered
    cases lowered
    exact ⟨_, done, kept rfl⟩
  · have done : ((cast (Expr.column ⟨1, "flag", none, .boolean⟩) .string).lower {}).outcome =
        .done (Rule.ifElse (.ident "flag") (bindText "true") (bindText "false")) := by
      rw [lower_cast, lower_column]
      rfl
    have plain : [(Expr.column ⟨1, "flag", none, .boolean⟩).dataType].IsChain
        fun source target => ¬ SpellsOut source target := .singleton _
    obtain ⟨x, lowered, lost⟩ :=
      value_casts_of_null Target.flags Target.isStrict_flags plain done none
    rw [column] at lowered
    cases lowered
    exact ⟨_, done, lost rfl⟩

end SqlLowering
