import SqlLowering.Proofs.Assembly

/-!
# Types of arithmetic

Two decisions rest on the type of a whole operand: rounding is refused where the operand is
approximate, and a cast to a whole number cuts off a fraction first. The type of an arithmetic tree
is that of its leftmost leaf, so both decisions are made by this leaf alone. An approximate or
fractional operand further to the right is not seen.

Main statement: `Expr.IsArithmetic.decided_by_first_leaf`.
-/

namespace SqlLowering

open Dialect Fragment Conversion

/-- The operators of arithmetic. -/
def BinaryOp.isArithmetic : BinaryOp → Bool
  | add | sub | mul | div => true
  | _ => false

namespace Expr

variable {ctx : Context}

/-- Arithmetic over numeric columns and literals that have a result. -/
inductive IsArithmetic (ctx : Context) : Expr → Prop
  | column {ref : ColumnRef} (numeric : ref.dataType.isNumeric = true)
      (lowered : (Expr.column ref).IsLowered ctx) : IsArithmetic ctx (.column ref)
  | literal {value : Value} {type : DataType} (numeric : type.isNumeric = true)
      (lowered : (Expr.literal value type).IsLowered ctx) : IsArithmetic ctx (.literal value type)
  | negate {child : Expr} (operand : IsArithmetic ctx child) :
      IsArithmetic ctx (.unary .negate child)
  | binary {op : BinaryOp} {left right : Expr} (arithmetic : op.isArithmetic = true)
      (before : IsArithmetic ctx left) (after : IsArithmetic ctx right) :
      IsArithmetic ctx (.binary op left right)

/-- The types of the leaves of an operator tree, from left to right. -/
def leafTypes : Expr → List DataType
  | .unary _ child => child.leafTypes
  | .binary _ left right => left.leafTypes ++ right.leafTypes
  | e => [e.dataType]

/-- An operator tree has a result if its operands have. -/
theorem IsArithmetic.isLowered {x : Expr} (h : x.IsArithmetic ctx) : x.IsLowered ctx := by
  induction h with
  | column _ lowered => exact lowered
  | literal _ lowered => exact lowered
  | negate _ ih =>
      refine ⟨_, (lower_eq_done_iff (by intro h; cases h)).mpr ⟨?_, rfl⟩⟩
      intro c mem
      rw [List.mem_singleton.mp mem]
      exact ih
  | binary _ _ _ before after =>
      refine ⟨_, (lower_eq_done_iff (by intro h; cases h)).mpr ⟨?_, rfl⟩⟩
      exact List.forall_mem_cons.mpr ⟨before, List.forall_mem_singleton.mpr after⟩

/-- The type of arithmetic is that of its leftmost leaf, which is numeric. -/
theorem IsArithmetic.leafTypes_eq {x : Expr} (h : x.IsArithmetic ctx) :
    x.dataType.isNumeric = true ∧ ∃ others, x.leafTypes = x.dataType :: others := by
  induction h with
  | column numeric _ => exact ⟨numeric, [], rfl⟩
  | literal numeric _ => exact ⟨numeric, [], rfl⟩
  | negate _ ih => exact ih
  | @binary op left right arithmetic _ _ before _ =>
      have value : op.isPredicate = false := by
        cases op with
        | add | sub | mul | div => rfl
        | _ => cases arithmetic
      obtain ⟨numeric, others, first⟩ := before
      rw [dataType, value, leafTypes, first]
      exact ⟨numeric, others ++ right.leafTypes, rfl⟩

/-- Rounding has a result exactly if its operands have one, there are one or two of them, and the
first is not of an approximate type. -/
theorem isLowered_round_iff (x : Expr) (digits : List Expr) :
    (call .round (x :: digits)).IsLowered ctx ↔
      (∀ c ∈ x :: digits, c.IsLowered ctx) ∧ digits.length ≤ 1 ∧
        x.dataType.isApproximate = false := by
  have kind : Rule.Kind.ofFunction .round = .scalarFunction := rfl
  have plain : (call .round (x :: digits)).kind ≠ .compositeCall := by
    intro h
    cases h
  have written (f : Fragment) : (call .round (x :: digits)).assemble ctx (fragment ctx) = some f ↔
      (digits.length ≤ 1 ∧ x.dataType.isApproximate = false) ∧
        func "ROUND" ((x :: digits).map (fragment ctx)) = f := by
    show assembleCall ctx (fragment ctx) .round (x :: digits) = some f ↔ _
    have name : Rule.scalarName? .round = some "ROUND" := rfl
    have rounds : Rule.roundsApproximate .round (x :: digits) = x.dataType.isApproximate := rfl
    have accepts : ScalarFunction.round.shape.accepts (digits.length + 1) =
        decide (digits.length ≤ 1) := by
      show (decide (1 ≤ digits.length + 1) && decide (digits.length + 1 ≤ 2)) = _
      simp
    simp [assembleCall, kind, name, rounds, accepts]
  constructor
  · rintro ⟨f, done⟩
    obtain ⟨lowered, assembled⟩ := (lower_eq_done_iff plain).mp done
    exact ⟨lowered, ((written f).mp assembled).1⟩
  · rintro ⟨lowered, fits⟩
    exact ⟨_, (lower_eq_done_iff plain).mpr ⟨lowered, (written _).mpr ⟨fits, rfl⟩⟩⟩

/-- A number is cast to a whole number of another type, without its fraction if it may have one. -/
theorem convert?_integral (operand : Fragment) {source target : DataType}
    (numeric : source.isNumeric = true) (integral : target.isIntegral = true) :
    convert? operand source target =
      some (if source.isFractional then castAs (truncated operand) (.raw "SIGNED")
        else castAs operand (.raw "SIGNED")) := by
  have whole : source.isFractional ≠ true → source.isIntegral = true := by
    intro notFractional
    rw [DataType.isNumeric, Bool.or_eq_true] at numeric
    exact numeric.resolve_right notFractional
  cases target with
  | byte | short | integer | long =>
      rw [convert?]
      split_ifs with fractional fits
      · rfl
      · rfl
      · exact absurd (.inr (.inl (whole fractional))) fits
  | _ => cases integral

/-- Rounding of arithmetic and casts of it to whole numbers are decided by the type of its leftmost
leaf, whatever the other leaves are. -/
theorem IsArithmetic.decided_by_first_leaf {x : Expr} (h : x.IsArithmetic ctx) :
    ∃ first others operand, x.leafTypes = first :: others ∧
      (x.lower ctx).outcome = .done operand ∧
      (∀ digits, (call .round (x :: digits)).IsLowered ctx ↔
        (∀ d ∈ digits, d.IsLowered ctx) ∧ digits.length ≤ 1 ∧ first.isApproximate = false) ∧
      ∀ target, target.isIntegral = true → ((cast x target).lower ctx).outcome = .done
        (if first.isFractional then castAs (truncated operand) (.raw "SIGNED")
          else if first = target then operand
          else castAs operand (.raw "SIGNED")) := by
  obtain ⟨numeric, others, leaves⟩ := h.leafTypes_eq
  refine ⟨x.dataType, others, x.fragment ctx, leaves, h.isLowered.outcome_eq, ?_, ?_⟩
  · intro digits
    rw [isLowered_round_iff, List.forall_mem_cons, and_assoc]
    exact and_iff_right h.isLowered
  · intro target integral
    apply (lower_eq_done_iff (by intro h; cases h)).mpr
    constructor
    · exact List.forall_mem_singleton.mpr h.isLowered
    · rw [assemble]
      by_cases same : x.dataType = target
      · have whole : x.dataType.isFractional = false := by
          rw [same]
          cases target with
          | byte | short | integer | long => rfl
          | _ => cases integral
        rw [if_pos same, whole, if_pos same]
        rfl
      · rw [if_neg same, convert?_integral _ numeric integral, if_neg same]

/-- A sum of a whole number and an approximate one, in this order. -/
def wholeFirst : Expr :=
  .binary .add (.column ⟨1, "n", none, .long⟩) (.column ⟨2, "x", none, .double⟩)

/-- A sum of an approximate number and a whole one, in this order. -/
def wholeLast : Expr :=
  .binary .add (.column ⟨2, "x", none, .double⟩) (.column ⟨1, "n", none, .long⟩)

/-- A sum of a whole and an approximate number is rounded, and cast without cutting off its
fraction, if the whole number comes first; not so in the other order. -/
theorem IsArithmetic.decided_by_first_leaf_of_mixed_sum :
    (call .round [wholeFirst]).IsLowered {} ∧ ¬ (call .round [wholeLast]).IsLowered {} ∧
      (∃ f, (wholeFirst.lower {}).outcome = .done f ∧
        ((cast wholeFirst .long).lower {}).outcome = .done f) ∧
      ∃ f, (wholeLast.lower {}).outcome = .done f ∧
        ((cast wholeLast .long).lower {}).outcome =
          .done (castAs (truncated f) (.raw "SIGNED")) := by
  have whole : (Expr.column ⟨1, "n", none, .long⟩).IsArithmetic {} :=
    .column rfl ⟨.ident "n", by rw [lower_column]; rfl⟩
  have approximate : (Expr.column ⟨2, "x", none, .double⟩).IsArithmetic {} :=
    .column rfl ⟨.ident "x", by rw [lower_column]; rfl⟩
  have before : wholeFirst.IsArithmetic {} := .binary rfl whole approximate
  have after : wholeLast.IsArithmetic {} := .binary rfl approximate whole
  obtain ⟨_, _, f, leaves, first, rounded, converted⟩ := decided_by_first_leaf before
  obtain ⟨_, _, g, leaves', last, rounded', converted'⟩ := decided_by_first_leaf after
  cases leaves
  cases leaves'
  refine ⟨?_, ?_, ⟨f, first, converted .long rfl⟩, g, last, converted' .long rfl⟩
  · exact (rounded []).mpr ⟨by simp, by simp, rfl⟩
  · intro lowered
    exact absurd ((rounded' []).mp lowered).2.2 (by decide)

end Expr

end SqlLowering
