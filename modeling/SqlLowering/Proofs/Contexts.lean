import SqlLowering.Proofs.Comparison

/-!
# What a context can change

A context gives the version of the target and the names of columns. It decides whether an expression
has an equivalent, and never which one beyond the names of its columns.

Main statements: `Expr.lowerRoot_eq_of_extends` and `Expr.lowerRoot_eq_done_iff_latest`. A newer
version, or a resolver that knows more columns, leaves every answer as it is and can only turn a
missing one into an answer. For one resolver, an expression has a result on a version exactly when
it has the same result on the latest version and every feature that is needed anywhere in it is
there.
-/

namespace SqlLowering

open Dialect

namespace Dialect

/-! ## Versions -/

/-- Versions are compared by their major numbers first, and by the patch last. -/
theorem Version.le_iff {a b : Version} :
    a ≤ b ↔ a.major < b.major ∨ a.major = b.major ∧
      (a.minor < b.minor ∨ a.minor = b.minor ∧ a.patch ≤ b.patch) := by
  show a.le b = true ↔ _
  simp [Version.le]

/-- The order of versions is that of three numbers one after the other, so it is transitive. -/
theorem Version.le_trans {a b c : Version} (first : a ≤ b) (second : b ≤ c) : a ≤ c := by
  rw [Version.le_iff] at first second ⊢
  grind

/-- A version keeps the features of every older one. -/
theorem Version.supports_of_le {v w : Version} (newer : v ≤ w) {feature : Feature}
    (there : v.supports feature = true) : w.supports feature = true := by
  rw [Version.supports, decide_eq_true_iff] at there ⊢
  exact Version.le_trans there newer

/-- The latest version has all features. -/
theorem Version.latest_supports (feature : Feature) : Version.latest.supports feature = true := by
  cases feature <;> decide

end Dialect

/-! ## More columns and newer versions -/

namespace Lowering.Comparison

/-- Both lowerings are the same, unless the first one finds no equivalent. -/
def unlessMissing : Comparison where
  Holds x y := x.outcome ≠ .untranslatable → x = y
  ofOption _ _ := rfl
  convert _ _ _ := rfl
  bind := by
    intro α β x y f g first next settled
    obtain ⟨notices, outcome⟩ := x
    cases outcome with
    | done a =>
        have rest : f a = g a := next a settled
        rw [← first nofun]
        show Lowering.mk (notices ++ (f a).notices) (f a).outcome =
          Lowering.mk (notices ++ (g a).notices) (g a).outcome
        rw [rest]
    | untranslatable => exact absurd rfl settled
    | unknownWeekday name =>
        rw [← first nofun]
        rfl

end Lowering.Comparison

namespace Expr

open Lowering (Comparison)

section Extension

variable {old new : Context}

/-- A context that extends another one suits every node in the same way, unless the first finds no
equivalent there. -/
theorem unlessMissing_fits (newer : old.version ≤ new.version)
    (more : ∀ ref f, old.resolver ref = some f → new.resolver ref = some f) (e : Expr) :
    Comparison.unlessMissing.Fits old new e where
  column ref _ := by
    intro settled
    cases known : old.resolver ref with
    | none =>
        rw [known] at settled
        exact absurd rfl settled
    | some f => rw [more ref f known]
  feature feature _ := by
    intro settled
    cases there : old.supports feature with
    | false =>
        rw [there] at settled
        exact absurd rfl settled
    | true =>
        have kept : new.supports feature = true := Version.supports_of_le newer there
        rw [kept]
  weekday _ _ _ := rfl

/-- A newer version of the target, or a resolver that knows more columns, changes no answer: the
result stays the same and so does an error, each with the same notes. Only an expression without an
equivalent may get one. -/
theorem lowerRoot_eq_of_extends (newer : old.version ≤ new.version)
    (more : ∀ ref f, old.resolver ref = some f → new.resolver ref = some f) {e : Expr}
    (settled : (e.lowerRoot old).outcome ≠ .untranslatable) :
    e.lowerRoot new = e.lowerRoot old := by
  have whole : Comparison.unlessMissing.Holds (e.lowerRoot old) (e.lowerRoot new) :=
    lowerRoot_compare_of_parts fun c _ => unlessMissing_fits newer more c
  exact (whole settled).symm

/-- A pattern call from version 6.5 on, on a resolver that has learned of a second column and on the
latest version. -/
theorem lowerRoot_eq_of_extends_of_second_column :
    ((Expr.call .toChar [.column ⟨1, "at", none, .date⟩, .text "yyyy"]).lowerRoot
        ⟨⟨6, 5, 0⟩, (ColumnMap.empty.insertId 1 "at").resolver⟩).outcome ≠ .untranslatable ∧
      (Expr.call .toChar [.column ⟨1, "at", none, .date⟩, .text "yyyy"]).lowerRoot
          ⟨.latest, ((ColumnMap.empty.insertId 1 "at").insertId 2 "by").resolver⟩ =
        (Expr.call .toChar [.column ⟨1, "at", none, .date⟩, .text "yyyy"]).lowerRoot
          ⟨⟨6, 5, 0⟩, (ColumnMap.empty.insertId 1 "at").resolver⟩ := by
  have settled : ((Expr.call .toChar [.column ⟨1, "at", none, .date⟩, .text "yyyy"]).lowerRoot
      ⟨⟨6, 5, 0⟩, (ColumnMap.empty.insertId 1 "at").resolver⟩).outcome ≠ .untranslatable := by
    rw [lowerRoot, lower_formatFunction _ rfl, lower_column]
    · intro missing
      cases missing
    · intro child name named
      cases named
  refine ⟨settled, lowerRoot_eq_of_extends (by decide) ?_ settled⟩
  intro ref f known
  cases first : ref.id == 1 with
  | true =>
      simp only [ColumnMap.resolver, ColumnMap.identifier?, ColumnMap.insertId, List.lookup_cons,
        eq_of_beq first] at known ⊢
      exact known
  | false =>
      simp only [ColumnMap.resolver, ColumnMap.identifier?, ColumnMap.insertId, ColumnMap.empty,
        List.lookup_cons, List.lookup_nil, first] at known
      cases known

end Extension

/-! ## Features -/

section Features

variable {ctx : Context} {feature : Feature}

/-- Only calls without arguments and calls with a pattern need a feature. -/
theorem kind_of_feature? {f : ScalarFunction} (needed : f.feature? = some feature) :
    Rule.Kind.ofFunction f = .leafFunction ∨ Rule.Kind.ofFunction f = .formatFunction := by
  cases f <;> first | exact .inl rfl | exact .inr rfl | cases needed

/-- No composite call needs a feature itself; only its arguments may. -/
theorem plain_of_feature? {e : Expr} (needed : e.feature? = some feature) :
    e.kind ≠ .compositeCall := by
  intro composite
  cases e with
  | call f args =>
      rw [Expr.kind] at composite
      rcases kind_of_feature? needed with kind | kind <;> rw [kind] at composite <;> cases composite
  | _ => cases composite

/-- A call that is put together has the feature that it needs: without it the table has no entry, or
the pattern is refused. -/
theorem supports_of_assembleCall {f : ScalarFunction} (needed : f.feature? = some feature)
    {visit : Expr → Fragment} {args : List Expr} {g : Fragment}
    (h : assembleCall ctx visit f args = some g) : ctx.supports feature = true := by
  have all : f.feature?.all ctx.supports = ctx.supports feature := by
    rw [needed]
    rfl
  rw [← all]
  cases Rule.callCase f args with
  | leaf kind =>
      simp only [assembleCall, kind] at h
      rw [Rule.leafCall?_eq] at h
      split at h
      · assumption
      · cases h
  | format kind input pattern =>
      simp only [assembleCall, kind] at h
      obtain ⟨⟨name, mode⟩, known, h⟩ := Option.bind_eq_some_iff.mp h
      split at h
      · rename_i supported
        rwa [Rule.formatName?_supports known] at supported
      · cases h
  | misfit misfit =>
      rw [assembleCall_of_misfit ctx visit misfit] at h
      cases h
  | composite kind | variadic kind | scalar kind | dateArithmetic kind | textPredicate kind =>
      rcases kind_of_feature? needed with other | other <;> simp [kind] at other

/-- An aggregate that is put together has the feature that it needs. -/
theorem supports_of_aggregate {agg : AggregateCall Expr} (needed : agg.func.feature? = some feature)
    {visit : Expr → Fragment} {g : Fragment} (h : agg.assemble ctx visit = some g) :
    ctx.supports feature = true := by
  rw [AggregateCall.assemble, AggregateCall.isAvailable_eq, needed] at h
  split at h
  · rename_i available
    exact (Bool.and_eq_true_iff.mp available).1
  · cases h

/-- A node that needs a feature has no result without it. -/
theorem supports_of_isLowered {e : Expr} (lowered : e.IsLowered ctx)
    (needed : e.feature? = some feature) : ctx.supports feature = true := by
  obtain ⟨g, done⟩ := lowered
  obtain ⟨-, written⟩ := (lower_eq_done_iff (plain_of_feature? needed)).mp done
  cases e with
  | call f args => exact supports_of_assembleCall needed written
  | aggregate agg => exact supports_of_aggregate needed written
  | window win =>
      obtain ⟨function, called, -⟩ := Option.bind_eq_some_iff.mp written
      cases func : win.func with
      | aggregate agg =>
          rw [func, WindowFunction.assemble] at called
          have gated : agg.func.feature? = some feature := by
            rw [feature?, func] at needed
            exact needed
          split at called
          · exact supports_of_aggregate gated called
          · cases called
      | _ =>
          rw [feature?, func] at needed
          cases needed
  | _ => cases needed

/-- Two contexts with one resolver lower an expression in the same way if they agree on the features
that are needed in it. -/
theorem lowerRoot_eq_of_supports {old new : Context} (columns : old.resolver = new.resolver)
    {e : Expr} (features : ∀ c feature, e.HasPart c → c.feature? = some feature →
      old.supports feature = new.supports feature) : e.lowerRoot old = e.lowerRoot new := by
  apply lowerRoot_compare_of_parts (C := .equal)
  intro c part
  constructor
  · intro ref _
    exact congrArg (fun resolver : Resolver => Lowering.ofOption (resolver ref)) columns
  · intro feature needed
    show Lowering.require (old.supports feature) = Lowering.require (new.supports feature)
    rw [features c feature part needed]
  · intro name _
    rfl

/-- The features of the target are asked for where they are needed and nowhere else: on a version,
an expression has the result that it has on the latest one if every feature needed anywhere in it
came with this version or before, and otherwise it has none. -/
theorem lowerRoot_eq_done_iff_latest (e : Expr) (resolver : Resolver) (version : Version)
    (f : Fragment) :
    (e.lowerRoot ⟨version, resolver⟩).outcome = .done f ↔
      (e.lowerRoot ⟨.latest, resolver⟩).outcome = .done f ∧
        ∀ c feature, e.HasPart c → c.feature? = some feature → feature.since ≤ version := by
  have same (there : ∀ c feature, e.HasPart c → c.feature? = some feature →
      feature.since ≤ version) :
      e.lowerRoot ⟨version, resolver⟩ = e.lowerRoot ⟨.latest, resolver⟩ := by
    apply lowerRoot_eq_of_supports
    · rfl
    · intro c feature part needed
      show version.supports feature = Version.latest.supports feature
      rw [Version.latest_supports, Version.supports, decide_eq_true_iff]
      exact there c feature part needed
  constructor
  · intro done
    have there (c : Expr) (feature : Feature) (part : e.HasPart c)
        (needed : c.feature? = some feature) : feature.since ≤ version := by
      have lowered := isLowered_of_hasPart (isLowered_of_lowerRoot done) part
      exact of_decide_eq_true (supports_of_isLowered lowered needed)
    rw [← same there]
    exact ⟨done, there⟩
  · rintro ⟨done, there⟩
    rw [same there]
    exact done

end Features

end Expr

end SqlLowering
