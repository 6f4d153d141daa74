import SqlLowering.Proofs.Equations

/-!
# Expressions of one shape

Two expressions have one shape when they differ only in content that comes from outside: names and
numbers of columns, qualifiers, aliases, and the content of texts, bytes, dates and timestamps. One
such text is held fixed, the weekday by which a call is expanded.

Calls are related through relators, which lift a relation on operands to calls that agree in
everything else. A relation that passes from operands to the few kinds of nodes of which the trees
of composite calls are built passes from the arguments of such a call to its tree
(`Composite.Closed`). The facts about one shape needed for lowering are that it fixes the type of an
expression, whether it is a string literal, and the shape of the tree that a composite call stands
for.
-/

namespace SqlLowering

open Dialect Fragment

section Relators

variable {ε δ : Type}

/-- Two aggregate calls that differ in their operands only. -/
inductive AggregateCall.Rel (R : ε → δ → Prop) : AggregateCall ε → AggregateCall δ → Prop
  | mk {func : AggregateFunction} {distinct : Bool} {args : List ε} {args' : List δ}
      {filter : Option ε} {filter' : Option δ} (arguments : List.Forall₂ R args args')
      (filters : Option.Rel R filter filter') :
      Rel R ⟨func, args, distinct, filter⟩ ⟨func, args', distinct, filter'⟩

/-- Two sort keys that differ in the expression only. -/
inductive SortKey.Rel (R : ε → δ → Prop) : SortKey ε → SortKey δ → Prop
  | mk {expr : ε} {expr' : δ} {direction : SortDirection} {nulls : NullOrdering}
      (related : R expr expr') : Rel R ⟨expr, direction, nulls⟩ ⟨expr', direction, nulls⟩

/-- Two window functions that differ in their operands only. -/
inductive WindowFunction.Rel (R : ε → δ → Prop) : WindowFunction ε → WindowFunction δ → Prop
  | aggregate {call : AggregateCall ε} {call' : AggregateCall δ}
      (calls : AggregateCall.Rel R call call') : Rel R (.aggregate call) (.aggregate call')
  | rowNumber : Rel R .rowNumber .rowNumber
  | rank : Rel R .rank .rank
  | denseRank : Rel R .denseRank .denseRank
  | percentRank : Rel R .percentRank .percentRank
  | cumeDist : Rel R .cumeDist .cumeDist
  | ntile {buckets : ε} {buckets' : δ} (related : R buckets buckets') :
      Rel R (.ntile buckets) (.ntile buckets')
  | lag {input : ε} {input' : δ} {offset : Int64} {default : Option ε} {default' : Option δ}
      (inputs : R input input') (defaults : Option.Rel R default default') :
      Rel R (.lag input offset default) (.lag input' offset default')
  | lead {input : ε} {input' : δ} {offset : Int64} {default : Option ε} {default' : Option δ}
      (inputs : R input input') (defaults : Option.Rel R default default') :
      Rel R (.lead input offset default) (.lead input' offset default')
  | firstValue {input : ε} {input' : δ} (inputs : R input input') :
      Rel R (.firstValue input) (.firstValue input')
  | lastValue {input : ε} {input' : δ} (inputs : R input input') :
      Rel R (.lastValue input) (.lastValue input')
  | nthValue {input : ε} {input' : δ} {n : Int64} (inputs : R input input') :
      Rel R (.nthValue input n) (.nthValue input' n)

/-- Two window calls that differ in their operands only. -/
inductive WindowCall.Rel (R : ε → δ → Prop) : WindowCall ε → WindowCall δ → Prop
  | mk {func : WindowFunction ε} {func' : WindowFunction δ} {partitionBy : List ε}
      {partitionBy' : List δ} {orderBy : List (SortKey ε)} {orderBy' : List (SortKey δ)}
      {frame : Option WindowFrame} (functions : WindowFunction.Rel R func func')
      (partitions : List.Forall₂ R partitionBy partitionBy')
      (orders : List.Forall₂ (SortKey.Rel R) orderBy orderBy') :
      Rel R ⟨func, partitionBy, orderBy, frame⟩ ⟨func', partitionBy', orderBy', frame⟩

/-- Two branches of case distinctions, by condition and by result. -/
inductive BranchRel (R : ε → δ → Prop) : ε × ε → δ × δ → Prop
  | mk {a b : ε} {a' b' : δ} (conditions : R a a') (results : R b b') : BranchRel R (a, b) (a', b')

variable {R : ε → δ → Prop}

namespace AggregateCall.Rel

variable {call : AggregateCall ε} {call' : AggregateCall δ}

/-- Whether a call is well formed depends on the number of its arguments, not on what they are. -/
theorem isWellFormed_eq (calls : AggregateCall.Rel R call call') :
    call.isWellFormed = call'.isWellFormed := by
  cases calls with
  | @mk func distinct args args' filter filter' arguments filters =>
      have same : filter.isSome = filter'.isSome := by cases filters <;> rfl
      match arguments with
      | .nil | .cons _ .nil | .cons _ (.cons _ _) => simp only [isWellFormed, same]

/-- Related calls are both over distinct values, or both are not. -/
theorem distinct_eq (calls : AggregateCall.Rel R call call') :
    call.distinct = call'.distinct := by
  cases calls with
  | mk arguments filters => rfl

end AggregateCall.Rel

/-- Related windows have related functions. -/
theorem WindowCall.Rel.functions {call : WindowCall ε} {call' : WindowCall δ}
    (calls : WindowCall.Rel R call call') : WindowFunction.Rel R call.func call'.func := by
  cases calls with
  | mk functions partitions orders => exact functions

end Relators

/-- Two values of one kind; only texts, bytes, dates and timestamps may differ. -/
inductive Value.Alike : Value → Value → Prop
  | refl (value : Value) : Alike value value
  | string (s t : String) : Alike (.string s) (.string t)
  | binary (xs ys : List UInt8) : Alike (.binary xs) (.binary ys)
  | date (d d' : Calendar.Date) : Alike (.date d) (.date d')
  | timestamp (t t' : Calendar.Timestamp) : Alike (.timestamp t) (.timestamp t')

namespace Composite

/-- The functions in the tree of a composite call that do not come from its arguments. -/
def primitives : List ScalarFunction :=
  [.convertTz, .dateDiff, .dateAdd, .floor, .strToDate, .dateFormat, .fromUnixTime]

/-- A relation that passes from operands to their node, for the nodes with which the tree of a
composite call is built around its arguments. -/
structure Closed (R : Expr → Expr → Prop) : Prop where
  literal : ∀ (value : Value) (type : DataType), R (.literal value type) (.literal value type)
  cast : ∀ {a b : Expr} (target : DataType), R a b → R (.cast a target) (.cast b target)
  binary : ∀ {a a' b b' : Expr} (op : BinaryOp), R a a' → R b b' →
    R (.binary op a b) (.binary op a' b')
  call : ∀ {f : ScalarFunction} {args args' : List Expr}, f ∈ primitives →
    List.Forall₂ R args args' → R (.call f args) (.call f args')

end Composite

/-- The argument that names a weekday, in the calls that are expanded by it. -/
def Expr.weekdayArgument? : ScalarFunction → List Expr → Option Expr
  | .nextDay, [_, day] => some day
  | .weekDiff, [_, _, start] => some start
  | _, _ => none

/-- The name by which a node chooses a weekday, if it does so by a string literal. -/
def Expr.weekdayName? : Expr → Option String
  | .call f args => weekdayArgument? f args >>= stringLiteral?
  | _ => none

/-- Calls with related arguments name their weekdays by related arguments. -/
theorem Expr.weekdayArgument?_rel {R : Expr → Expr → Prop} {args args' : List Expr}
    (f : ScalarFunction) (arguments : List.Forall₂ R args args') :
    Option.Rel R (weekdayArgument? f args) (weekdayArgument? f args') := by
  cases f with
  | nextDay =>
      match arguments with
      | .nil | .cons _ .nil | .cons _ (.cons _ (.cons _ _)) => exact .none
      | .cons _ (.cons days .nil) => exact .some days
  | weekDiff =>
      match arguments with
      | .nil | .cons _ .nil | .cons _ (.cons _ .nil) | .cons _ (.cons _ (.cons _ (.cons _ _))) =>
          exact .none
      | .cons _ (.cons _ (.cons starts .nil)) => exact .some starts
  | _ => exact .none

/-- The functions that a tree is built with choose no weekday of their own. -/
theorem Expr.weekdayArgument?_of_primitive {f : ScalarFunction} (mem : f ∈ Composite.primitives)
    (args : List Expr) : weekdayArgument? f args = none := by
  simp only [Composite.primitives, List.mem_cons, List.not_mem_nil, or_false] at mem
  rcases mem with rfl | rfl | rfl | rfl | rfl | rfl | rfl <;> rfl

/-! ## Trees of composite calls -/

namespace Composite.Closed

variable {R : Expr → Expr → Prop} {a a' b b' : Expr}

/-- The relation passes to the days since a weekday, a difference with a literal. -/
theorem daysSince (closed : Closed R) (start : Calendar.Weekday) (h : R a a') :
    R (Composite.daysSince start a) (Composite.daysSince start a') := by
  have days : R (daysSinceEpoch a) (daysSinceEpoch a') :=
    closed.call (by decide) (.cons (closed.cast .date h) (.cons (closed.literal _ _) .nil))
  exact closed.binary .sub days (closed.literal _ _)

/-- It passes to the number of the week, a seventh of those days that is rounded down. -/
theorem weekNumber (closed : Closed R) (start : Calendar.Weekday) (h : R a a') :
    R (Composite.weekNumber start a) (Composite.weekNumber start a') := by
  have quotient := closed.binary .div (closed.daysSince start h) (closed.literal (.long 7) .long)
  exact closed.call (by decide) (.cons quotient .nil)

/-- It passes to the next day, which adds to the date what is left of its week. -/
theorem nextDay (closed : Closed R) (day : Calendar.Weekday) (h : R a a') :
    R (Composite.nextDay day a) (Composite.nextDay day a') := by
  have seven := closed.literal (.long 7) .long
  have weeks := closed.binary .mul (closed.weekNumber day h) seven
  have into := closed.binary .sub (closed.daysSince day h) weeks
  have wait := closed.binary .sub seven into
  exact closed.call (by decide) (.cons (closed.cast .date h) (.cons wait .nil))

/-- It passes to the date in a time zone, a cast of the converted instant. -/
theorem localDate (closed : Closed R) (instants : R a a') (zones : R b b') :
    R (Composite.localDate a b) (Composite.localDate a' b') := by
  have utc := closed.literal (.string "UTC") .string
  have converted := closed.call (f := .convertTz) (by decide)
    (.cons instants (.cons utc (.cons zones .nil)))
  exact closed.cast .date converted

/-- It passes to the start of a day, the midnight of its local date that is converted back. -/
theorem dayStart (closed : Closed R) (instants : R a a') (zones : R b b') :
    R (Composite.dayStart a b) (Composite.dayStart a' b') := by
  have utc := closed.literal (.string "UTC") .string
  have midnight := closed.cast .timestamp (closed.localDate instants zones)
  exact closed.call (by decide) (.cons midnight (.cons zones (.cons utc .nil)))

/-- Calls with related arguments that name the same weekday stand for related trees, or both stand
for none for the same reason. -/
theorem expand (closed : Closed R) {f : ScalarFunction} {args args' : List Expr}
    (arguments : List.Forall₂ R args args')
    (weekdays : (Expr.weekdayArgument? f args).map weekday =
      (Expr.weekdayArgument? f args').map weekday) :
    Outcome.Rel R (Composite.expand f args) (Composite.expand f args') := by
  cases f with
  | dayStartInTimezone =>
      match arguments with
      | .nil | .cons _ .nil | .cons _ (.cons _ (.cons _ _)) => exact .untranslatable
      | .cons instants (.cons zones .nil) => exact .done (closed.dayStart instants zones)
  | stringToDateInTimezone =>
      match arguments with
      | .nil | .cons _ .nil | .cons _ (.cons _ (.cons _ (.cons _ _))) => exact .untranslatable
      | .cons inputs (.cons zones .nil) =>
          exact .done (closed.localDate (closed.cast .timestamp inputs) zones)
      | .cons inputs (.cons formats (.cons zones .nil)) =>
          have parsed :=
            closed.call (f := .strToDate) (by decide) (.cons inputs (.cons formats .nil))
          exact .done (closed.localDate parsed zones)
  | dayDiff =>
      match arguments with
      | .nil | .cons _ .nil | .cons _ (.cons _ (.cons _ _)) => exact .untranslatable
      | .cons laters (.cons earliers .nil) =>
          exact .done (closed.call (by decide)
            (.cons (closed.cast .date laters) (.cons (closed.cast .date earliers) .nil)))
  | weekDiff =>
      match arguments with
      | .nil | .cons _ .nil | .cons _ (.cons _ .nil) | .cons _ (.cons _ (.cons _ (.cons _ _))) =>
          exact .untranslatable
      | .cons laters (.cons earliers (.cons _ .nil)) =>
          rw [Composite.expand, Composite.expand, Option.some.inj weekdays]
          refine Outcome.Rel.bind (.refl _) fun start _ same => same ▸ .done ?_
          exact closed.binary .sub (closed.weekNumber start laters)
            (closed.weekNumber start earliers)
  | nextDay =>
      match arguments with
      | .nil | .cons _ .nil | .cons _ (.cons _ (.cons _ _)) => exact .untranslatable
      | .cons dates (.cons _ .nil) =>
          rw [Composite.expand, Composite.expand, Option.some.inj weekdays]
          exact Outcome.Rel.bind (.refl _) fun day _ same => same ▸ .done (closed.nextDay day dates)
  | dayOfWeekName =>
      match arguments with
      | .nil | .cons _ (.cons _ _) => exact .untranslatable
      | .cons dates .nil =>
          exact .done (closed.call (by decide) (.cons dates (.cons (closed.literal _ _) .nil)))
  | fromUnixTimeFormatted =>
      match arguments with
      | .nil | .cons _ .nil | .cons _ (.cons _ (.cons _ _)) => exact .untranslatable
      | .cons seconds (.cons formats .nil) =>
          have instant := closed.call (f := .fromUnixTime) (by decide) (.cons seconds .nil)
          exact .done (closed.call (by decide) (.cons instant (.cons formats .nil)))
  | _ => exact .untranslatable

end Composite.Closed

/-! ## One shape -/

/-- Two expressions of one shape. They may differ in the names and numbers of columns, in qualifiers
where both have one, in alias names and in the content of values; `corr` holds of each pair of
columns that stand at the same place. -/
inductive Expr.Alike (corr : ColumnRef → ColumnRef → Prop) : Expr → Expr → Prop
  | literal {v w : Value} {type : DataType} (values : v.Alike w) :
      Alike corr (.literal v type) (.literal w type)
  | column {c d : ColumnRef} (types : c.dataType = d.dataType)
      (qualifiers : c.qualifier.isSome = d.qualifier.isSome) (columns : corr c d) :
      Alike corr (.column c) (.column d)
  | renamed {a b : Expr} (name name' : String) (children : Alike corr a b) :
      Alike corr (.alias a name) (.alias b name')
  | unary {op : UnaryOp} {a b : Expr} (children : Alike corr a b) :
      Alike corr (.unary op a) (.unary op b)
  | binary {op : BinaryOp} {a a' b b' : Expr} (lefts : Alike corr a a')
      (rights : Alike corr b b') : Alike corr (.binary op a b) (.binary op a' b')
  | call {func : ScalarFunction} {args args' : List Expr}
      (arguments : List.Forall₂ (Alike corr) args args')
      (weekdays : weekdayArgument? func args = weekdayArgument? func args') :
      Alike corr (.call func args) (.call func args')
  | conditional {a a' b b' c c' : Expr} (predicates : Alike corr a a')
      (consequents : Alike corr b b') (otherwises : Alike corr c c') :
      Alike corr (.conditional a b c) (.conditional a' b' c')
  | case {bs bs' : List (Expr × Expr)} {otherwise otherwise' : Option Expr}
      (branches : List.Forall₂ (BranchRel (Alike corr)) bs bs')
      (otherwises : Option.Rel (Alike corr) otherwise otherwise') :
      Alike corr (.case bs otherwise) (.case bs' otherwise')
  | pattern {kind : MatchKind} {a a' b b' : Expr} (children : Alike corr a a')
      (regexes : Alike corr b b') : Alike corr (.pattern kind a b) (.pattern kind a' b')
  | inList {child child' : Expr} {items items' : List Expr} {negated : Bool}
      (children : Alike corr child child') (members : List.Forall₂ (Alike corr) items items') :
      Alike corr (.inList child items negated) (.inList child' items' negated)
  | inSet {child child' : Expr} {values values' : List Value} {type : DataType} {negated : Bool}
      (children : Alike corr child child') (members : List.Forall₂ Value.Alike values values') :
      Alike corr (.inSet child values type negated) (.inSet child' values' type negated)
  | cast {a b : Expr} {target : DataType} (children : Alike corr a b) :
      Alike corr (.cast a target) (.cast b target)
  | aggregate {call call' : AggregateCall Expr}
      (calls : AggregateCall.Rel (Alike corr) call call') :
      Alike corr (.aggregate call) (.aggregate call')
  | window {call call' : WindowCall Expr} (calls : WindowCall.Rel (Alike corr) call call') :
      Alike corr (.window call) (.window call')

namespace Expr.Alike

variable {corr : ColumnRef → ColumnRef → Prop}

/-- Expressions of one shape have one type. -/
theorem dataType_eq {e e' : Expr} (h : Alike corr e e') : e.dataType = e'.dataType := by
  induction e using lowering_induction generalizing e' with
  | step e operand _ =>
      cases h with
      | literal values => rfl
      | column types qualifiers columns => exact types
      | renamed name name' child => simp only [dataType, operand _ (mem_children_alias _ _) child]
      | @unary op a b child =>
          have same := operand _ (mem_children_unary op a) child
          cases op <;> simp only [dataType, same]
      | binary lefts rights =>
          simp only [dataType, operand _ (left_mem_children _ _ _) lefts]
      | call arguments weekdays =>
          cases arguments with
          | nil => rfl
          | cons first rest => simp only [dataType, operand _ (List.mem_cons_self ..) first]
      | conditional predicates consequents otherwises =>
          simp only [dataType, operand _ (consequent_mem_children _ _ _) consequents]
      | case branches otherwises =>
          cases branches with
          | cons first rest =>
              obtain ⟨conditions, results⟩ := first
              simp only [dataType, operand _ (result_mem_children List.mem_cons_self) results]
          | nil =>
              cases otherwises with
              | none => rfl
              | some child =>
                  simp only [dataType, operand _ (mem_children_of_case_otherwise rfl) child]
      | pattern | inList | inSet | cast => rfl
      | aggregate calls =>
          obtain ⟨arguments, filters⟩ := calls
          cases arguments with
          | nil => rfl
          | cons first rest =>
              simp only [dataType, operand _
                (AggregateCall.mem_children_of_mem_args List.mem_cons_self) first]
      | window calls =>
          cases calls with
          | @mk func func' _ _ _ _ _ functions partitions orders =>
              have child {c c' : Expr} (mem : c ∈ func.children) (h : Alike corr c c') :
                  c.dataType = c'.dataType :=
                operand c (WindowCall.mem_children_of_mem_func mem) h
              cases functions with
              | aggregate calls =>
                  obtain ⟨arguments, filters⟩ := calls
                  cases arguments with
                  | nil => rfl
                  | cons first rest =>
                      simp only [dataType, child
                        (AggregateCall.mem_children_of_mem_args List.mem_cons_self) first]
              | lag inputs defaults | lead inputs defaults =>
                  simp only [dataType, child List.mem_cons_self inputs]
              | firstValue inputs | lastValue inputs | nthValue inputs =>
                  simp only [dataType, child List.mem_cons_self inputs]
              | _ => rfl

/-- Whether an expression is a string literal does not depend on the string. -/
theorem stringLiteral?_rel {e e' : Expr} (h : Alike corr e e') :
    Option.Rel (fun _ _ => True) e.stringLiteral? e'.stringLiteral? := by
  cases h with
  | @literal v w type values =>
      cases values with
      | refl =>
          rw [stringLiteral?]
          cases v.asString? with
          | none => exact .none
          | some s => exact .some trivial
      | string => exact .some trivial
      | binary | date | timestamp => exact .none
  | _ => exact .none

/-- Rounding looks at the type of its first argument, and the shape fixes it. -/
theorem roundsApproximate_eq {args args' : List Expr}
    (arguments : List.Forall₂ (Alike corr) args args') (f : ScalarFunction) :
    Rule.roundsApproximate f args = Rule.roundsApproximate f args' := by
  cases arguments with
  | nil => rfl
  | cons first rest => simp [Rule.roundsApproximate, first.dataType_eq]

/-- Relations between trees of composite calls hold of expressions of one shape. -/
theorem closed : Composite.Closed (Alike corr) where
  literal value _ := .literal (.refl value)
  cast _ children := .cast children
  binary _ lefts rights := .binary lefts rights
  call mem arguments := .call arguments (by simp only [weekdayArgument?_of_primitive mem])

/-- Calls of one shape with one weekday stand for trees of one shape. -/
theorem expand_rel {f : ScalarFunction} {args args' : List Expr}
    (arguments : List.Forall₂ (Alike corr) args args')
    (weekdays : weekdayArgument? f args = weekdayArgument? f args') :
    Outcome.Rel (Alike corr) (Composite.expand f args) (Composite.expand f args') :=
  closed.expand arguments (by rw [weekdays])

end Expr.Alike

end SqlLowering
