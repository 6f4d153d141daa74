import SqlLowering.Proofs.Contexts

/-!
# Shapes and rules

How many arguments a function takes is said by its `shape`. Of the rules for calls only two look
there. The others take the arguments apart by themselves, and each rule finds the functions that it
writes in a table of its own. So a function could be missing from every table, or be written with a
number of arguments that its shape does not accept.

Main statement: `Expr.isLowered_call_iff`. Neither happens. A call that is not composite has a
result exactly if its shape accepts the number of its arguments, all arguments have a result, and
none of the three stated reasons against it applies: a date pattern that is no string literal, a
feature that the target does not have, and the rounding of an approximate number.
-/

namespace SqlLowering

open Dialect Fragment

/-- A range from a number to itself accepts only that number. -/
theorem CallShape.eq_of_accepts_fixed {n count : Nat} (h : (fixed n n).accepts count = true) :
    count = n := by
  rw [accepts, Bool.and_eq_true, decide_eq_true_iff, decide_eq_true_iff] at h
  exact Nat.le_antisymm h.2 h.1

namespace Rule

/-- The table that lists a function, with the shape of the calls that its rule writes. -/
inductive Listed (f : ScalarFunction) : Prop
  | variadic {name : String} {least : Nat} (kind : Kind.ofFunction f = .variadicFunction)
      (known : variadicName? f = some name) (shape : f.shape = .variadic least)
  | leaf {g : Fragment} (kind : Kind.ofFunction f = .leafFunction)
      (known : leafCall? {} f = some g) (shape : f.shape = .leaf)
  | scalar {name : String} {least most : Nat} (kind : Kind.ofFunction f = .scalarFunction)
      (known : scalarName? f = some name) (shape : f.shape = .fixed least most)
  | dateArithmetic {name unit : String} (kind : Kind.ofFunction f = .dateArithmetic)
      (known : dateArithmeticName? f = some (name, unit)) (shape : f.shape = .fixed 2 2)
  | format {name : String} {mode : Format.Mode} (kind : Kind.ofFunction f = .formatFunction)
      (known : formatName? f = some (name, mode)) (shape : f.shape = .format)
  | textPredicate {test : Fragment → Fragment → List Fragment}
      (kind : Kind.ofFunction f = .textPredicate) (known : textTest? f = some test)
      (shape : f.shape = .fixed 2 2)

/-- Every function that is not composite is in the table of its kind, and has a shape of that
kind. -/
theorem listed {f : ScalarFunction} (plain : f.isComposite = false) : Listed f := by
  cases f <;> first
    | exact .scalar rfl rfl rfl
    | exact .variadic rfl rfl rfl
    | exact .leaf rfl rfl rfl
    | exact .dateArithmetic rfl rfl rfl
    | exact .format rfl rfl rfl
    | exact .textPredicate rfl rfl rfl
    | cases plain

/-- A function that is not composite is not left to the rule for composite calls, as it is in the
table of another. -/
theorem kind_ne_compositeCall {f : ScalarFunction} (plain : f.isComposite = false) :
    Kind.ofFunction f ≠ .compositeCall := by
  cases listed plain with
  | variadic kind | leaf kind | scalar kind | dateArithmetic kind | format kind
  | textPredicate kind =>
      rw [kind]
      intro same
      cases same

/-- Rounding is refused for the two binary types. -/
theorem roundsApproximate_eq_false_iff {f : ScalarFunction} {args : List Expr} :
    roundsApproximate f args = false ↔
      (f = .round → ∀ x, args.head? = some x → x.dataType ≠ .float ∧ x.dataType ≠ .double) := by
  have precise (t : DataType) : t.isApproximate = false ↔ t ≠ .float ∧ t ≠ .double := by
    cases t <;> simp [DataType.isApproximate]
  cases args with
  | nil => simp [roundsApproximate]
  | cons x rest =>
      rw [roundsApproximate, Bool.and_eq_false_imp, beq_iff_eq]
      simp [precise]

end Rule

/-- What a call needs beside results for its arguments. -/
structure ScalarFunction.Admits (ctx : Context) (f : ScalarFunction) (args : List Expr) : Prop where
  count : f.shape.accepts args.length = true
  pattern : f.shape = .format →
    ∃ format letters, args[1]? = some format ∧ format.stringLiteral? = some letters
  feature : ∀ feature, f.feature? = some feature → ctx.supports feature = true
  rounding : f = .round →
    ∀ x, args.head? = some x → x.dataType ≠ .float ∧ x.dataType ≠ .double

namespace Expr

variable {ctx : Context} {f : ScalarFunction}

/-- A call is written only with a number of arguments that its shape accepts. -/
theorem accepts_of_assembleCall (plain : f.isComposite = false) {visit : Expr → Fragment}
    {args : List Expr} {g : Fragment} (h : assembleCall ctx visit f args = some g) :
    f.shape.accepts args.length = true := by
  by_contra refused
  -- Two rules ask for the shape; each of the others takes one number of arguments only.
  have fixed (misfit : Rule.Misfit f args.length) : False := by
    rw [assembleCall_of_misfit ctx visit misfit] at h
    cases h
  cases Rule.listed plain with
  | variadic kind known | scalar kind known => simp [assembleCall, kind, known, refused] at h
  | leaf kind _ shape =>
      apply fixed
      refine .inl ⟨kind, fun bare => refused ?_⟩
      rw [shape, bare]
      rfl
  | dateArithmetic kind _ shape | format kind _ shape | textPredicate kind _ shape =>
      apply fixed
      refine .inr ⟨by simp [kind], fun two => refused ?_⟩
      rw [shape, two]
      rfl

/-- A call that is put together is admitted: its number of arguments fits, and where a format is due
it is a literal. -/
theorem admits_of_assembleCall (plain : f.isComposite = false) {visit : Expr → Fragment}
    {args : List Expr} {g : Fragment} (h : assembleCall ctx visit f args = some g) :
    f.Admits ctx args where
  count := accepts_of_assembleCall plain h
  pattern shape := by
    have kind : Rule.Kind.ofFunction f = .formatFunction := by
      cases f <;> first | rfl | cases shape
    have count := accepts_of_assembleCall plain h
    rw [shape] at count
    obtain ⟨input, format, rfl⟩ := List.length_eq_two.mp (beq_iff_eq.mp count)
    obtain ⟨letters, literal⟩ := exists_stringLiteral?_of_assembleCall ctx kind h
    exact ⟨format, letters, rfl, literal⟩
  feature _ needed := supports_of_assembleCall needed h
  rounding := by
    rintro rfl
    have kind : Rule.Kind.ofFunction .round = .scalarFunction := rfl
    have exactly : Rule.roundsApproximate .round args = false := by
      by_contra rounds
      simp [assembleCall, kind, rounds] at h
    exact Rule.roundsApproximate_eq_false_iff.mp exactly rfl

/-- A call can be written if it has what it needs beside results for its arguments. -/
theorem exists_assembleCall_of_admits (plain : f.isComposite = false) (visit : Expr → Fragment)
    {args : List Expr} (h : f.Admits ctx args) : ∃ g, assembleCall ctx visit f args = some g := by
  obtain ⟨count, pattern, feature, rounding⟩ := h
  have supported : f.feature?.all ctx.supports = true := (Option.all_eq_true _ _).mpr feature
  cases Rule.listed plain with
  | variadic kind known => exact ⟨_, by simp only [assembleCall, kind, known, count]; rfl⟩
  | @leaf g kind known shape =>
      rw [shape] at count
      obtain rfl := List.length_eq_zero_iff.mp (beq_iff_eq.mp count)
      refine ⟨g, ?_⟩
      simp only [assembleCall, kind]
      rw [Rule.leafCall?_eq, if_pos supported, known]
  | scalar kind known =>
      have exactly := Rule.roundsApproximate_eq_false_iff.mpr rounding
      exact ⟨_, by simp only [assembleCall, kind, known, count, exactly]; rfl⟩
  | dateArithmetic kind known shape =>
      rw [shape] at count
      obtain ⟨date, amount, rfl⟩ := List.length_eq_two.mp (CallShape.eq_of_accepts_fixed count)
      exact ⟨_, by simp only [assembleCall, kind, known]; rfl⟩
  | format kind known shape =>
      rw [shape] at count
      obtain ⟨input, format, rfl⟩ := List.length_eq_two.mp (beq_iff_eq.mp count)
      obtain ⟨_, letters, found, literal⟩ := pattern shape
      cases found
      rw [← Rule.formatName?_supports known] at supported
      exact ⟨_, by simp only [assembleCall, kind, known, literal]; exact if_pos supported⟩
  | textPredicate kind known shape =>
      rw [shape] at count
      obtain ⟨text, part, rfl⟩ := List.length_eq_two.mp (CallShape.eq_of_accepts_fixed count)
      exact ⟨_, by simp only [assembleCall, kind, known]; rfl⟩

/-- Shapes and rules agree. A call that is not composite has a result exactly if all its arguments
have one, its shape accepts their number, its date pattern is a string literal if it has one, the
target has the feature that it needs, and it does not round an approximate number. -/
theorem isLowered_call_iff (ctx : Context) {f : ScalarFunction} (plain : f.isComposite = false)
    (args : List Expr) :
    (call f args).IsLowered ctx ↔ (∀ c ∈ args, c.IsLowered ctx) ∧ f.Admits ctx args := by
  have kind : (call f args).kind ≠ .compositeCall := Rule.kind_ne_compositeCall plain
  constructor
  · rintro ⟨g, done⟩
    obtain ⟨operands, written⟩ := (lower_eq_done_iff kind).mp done
    exact ⟨operands, admits_of_assembleCall plain written⟩
  · rintro ⟨operands, admits⟩
    obtain ⟨g, written⟩ := exists_assembleCall_of_admits plain (fragment ctx) admits
    exact ⟨g, (lower_eq_done_iff kind).mpr ⟨operands, written⟩⟩

/-- A pattern of specifiers can be used from version 6.5 on, and it cannot be left out. -/
theorem isLowered_call_iff_of_to_char :
    ScalarFunction.toChar.isComposite = false ∧
      (call .toChar [.column ⟨1, "at", none, .date⟩, .text "yyyy"]).IsLowered
        ⟨⟨6, 5, 0⟩, quotedColumns⟩ ∧
      ¬ (call .toChar [.column ⟨1, "at", none, .date⟩, .text "yyyy"]).IsLowered
        ⟨⟨6, 4, 9⟩, quotedColumns⟩ ∧
      ¬ (call .toChar [.column ⟨1, "at", none, .date⟩]).IsLowered ⟨⟨6, 5, 0⟩, quotedColumns⟩ := by
  have day (version : Version) :
      (column ⟨1, "at", none, .date⟩).IsLowered ⟨version, quotedColumns⟩ := by
    rw [IsLowered, lower_column]
    exact ⟨_, rfl⟩
  have pattern (ctx : Context) : (text "yyyy").IsLowered ctx :=
    isLowered_of_stringLiteral? ctx rfl
  refine ⟨rfl, ?_, ?_, ?_⟩
  · apply (isLowered_call_iff _ rfl _).mpr
    constructor
    · rintro c (_ | ⟨_, _ | ⟨_, ⟨⟩⟩⟩)
      · exact day _
      · exact pattern _
    · exact {
        count := rfl
        pattern := fun _ => ⟨_, _, rfl, rfl⟩
        feature := by
          rintro feature ⟨⟩
          decide
        rounding := by
          intro same
          cases same }
  · intro lowered
    have admits := ((isLowered_call_iff _ rfl _).mp lowered).2
    exact absurd (admits.feature _ rfl) (by decide)
  · intro lowered
    have admits := ((isLowered_call_iff _ rfl _).mp lowered).2
    exact absurd admits.count (by decide)

end Expr

end SqlLowering
