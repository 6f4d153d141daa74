import SqlLowering.Proofs.Containment
import SqlLowering.Proofs.Operands

/-!
# Two lowerings side by side

Many statements compare two lowerings of one expression, or of two that are nearly the same: for two
versions of the target, with and without a mistake in it, before and after a part is replaced. A
`Lowering.Comparison` is what such a statement says of the two lowerings. It has to hold where a
rule does the same on both sides, and it has to be kept when both sides go on.

Main statements: `Expr.lower_compare` and `Expr.lower_compare_of_parts`. If the operands of two
nodes compare and both name the same weekday, then the nodes compare, given that the two contexts
treat the node itself in comparable ways: a column by its name, a call of a newer feature of the
target by whether it is there. A composite call is lowered as the tree it stands for, and the tree
is built from nodes that every two contexts treat alike. So the lowerings of one expression under
two contexts compare if they do for each of its parts. A statement about a single lowering is a
comparison that does not look at the second one.
-/

namespace SqlLowering

open Dialect Fragment

/-! ## Features that a node needs -/

/-- The feature of the target that an aggregate function needs. -/
def AggregateFunction.feature? : AggregateFunction → Option Feature
  | .bitAnd | .bitOr | .bitXor => some .bitwiseAggregates
  | .approxCountDistinct => some .approxCountDistinct
  | _ => none

/-- The feature of the target that a scalar function needs. -/
def ScalarFunction.feature? : ScalarFunction → Option Feature
  | .uuid => some .uuid
  | .toChar | .toDate | .toTimestamp => some .specifierFormats
  | _ => none

/-- The feature of the target that a window function needs. -/
def WindowFunction.feature? {ε : Type} : WindowFunction ε → Option Feature
  | .aggregate call => call.func.feature?
  | _ => none

/-- The feature of the target that a node needs, apart from what its operands need. -/
def Expr.feature? : Expr → Option Feature
  | .call f _ => f.feature?
  | .aggregate agg => agg.func.feature?
  | .window win => win.func.feature?
  | _ => none

/-- An aggregate is available exactly if its feature is, so the table of features has no exceptions.
-/
theorem AggregateCall.isAvailable_eq (ctx : Context) (f : AggregateFunction) :
    isAvailable ctx f = f.feature?.all ctx.supports := by
  cases f <;> rfl

/-- A context decides only whether a call without arguments can be written, not how. -/
theorem Rule.leafCall?_eq (ctx : Context) (f : ScalarFunction) :
    leafCall? ctx f = if f.feature?.all ctx.supports then leafCall? {} f else none := by
  cases f <;> first | rfl | simp [leafCall?]

/-- A format with percent symbols needs no feature, and those with specifiers need the same one. -/
theorem Rule.formatName?_supports {f : ScalarFunction} {name : String} {mode : Format.Mode}
    (known : formatName? f = some (name, mode)) (ctx : Context) :
    (mode == .symbol || ctx.supports .specifierFormats) = f.feature?.all ctx.supports := by
  cases f <;> cases known <;> rfl

/-! ## Comparisons -/

/-- What is said of two lowerings, if it holds where both do the same and is kept when both go on
from the same result. -/
structure Lowering.Comparison where
  Holds : {α : Type} → Lowering α → Lowering α → Prop
  ofOption : ∀ {α : Type} (x : Option α), Holds (Lowering.ofOption x) (Lowering.ofOption x)
  convert : ∀ (mode : Format.Mode) (pattern : String),
    Holds (Lowering.convert mode pattern) (Lowering.convert mode pattern)
  bind : ∀ {α β : Type} {x y : Lowering α} {f g : α → Lowering β}, Holds x y →
    (∀ a, Holds (f a) (g a)) → Holds (x >>= f) (y >>= g)

namespace Lowering.Comparison

variable (C : Comparison) {α β γ δ : Type}

theorem pure (a : α) : C.Holds (Pure.pure a : Lowering α) (Pure.pure a) :=
  C.ofOption (some a)

theorem untranslatable : C.Holds (Lowering.untranslatable : Lowering α) .untranslatable :=
  C.ofOption none

theorem require (condition : Bool) :
    C.Holds (Lowering.require condition) (Lowering.require condition) := by
  cases condition with
  | false => exact C.untranslatable
  | true => exact C.pure ()

/-- Going on from comparable lowerings by writing down the result. -/
theorem map {x y : Lowering α} (first : C.Holds x y) (g : α → β) :
    C.Holds (x >>= fun a => Pure.pure (g a)) (y >>= fun a => Pure.pure (g a)) :=
  C.bind first fun a => C.pure (g a)

/-- Lists whose members correspond compare if the members do, as both sides visit them in order. -/
theorem each {R : γ → δ → Prop} {xs : List γ} {ys : List δ} {f : (a : γ) → a ∈ xs → Lowering α}
    {g : (b : δ) → b ∈ ys → Lowering α} (members : List.Forall₂ R xs ys)
    (step : ∀ a memA b memB, R a b → C.Holds (f a memA) (g b memB)) :
    C.Holds (Lowering.each xs f) (Lowering.each ys g) := by
  induction members with
  | nil => exact C.pure []
  | cons head tail ih =>
      rw [Lowering.each, Lowering.each]
      apply C.bind (step _ List.mem_cons_self _ List.mem_cons_self head)
      intro first
      apply C.map
      apply ih
      intro a memA b memB
      exact step a (List.mem_cons_of_mem _ memA) b (List.mem_cons_of_mem _ memB)

/-- Operands that may be missing compare if they are there on both sides or on neither. -/
theorem optional {R : γ → δ → Prop} {x : Option γ} {y : Option δ}
    {f : (a : γ) → x = some a → Lowering α} {g : (b : δ) → y = some b → Lowering α}
    (operands : Option.Rel R x y)
    (step : ∀ a eqA b eqB, R a b → C.Holds (f a eqA) (g b eqB)) :
    C.Holds (Lowering.optional x f) (Lowering.optional y g) := by
  cases operands with
  | none => exact C.pure none
  | some related => exact C.map (step _ rfl _ rfl related) some

/-- Features are there in comparable ways if the one feature that is needed is. -/
theorem gate {ctx ctx' : Context} {needed : Option Feature}
    (feature : ∀ feature, needed = some feature →
      C.Holds (.require (ctx.supports feature)) (.require (ctx'.supports feature))) :
    C.Holds (Lowering.require (needed.all ctx.supports))
      (Lowering.require (needed.all ctx'.supports)) := by
  cases needed with
  | none => exact C.require true
  | some f => exact feature f rfl

/-- Both lowerings are the same. -/
def equal : Comparison where
  Holds x y := x = y
  ofOption _ := rfl
  convert _ _ := rfl
  bind := by
    intro α β x y f g first next
    rw [first, funext next]

/-- All that a node is asked for besides its operands compares under two contexts: a column for its
name, a call for the feature it needs, and a composite call for the weekday it does not know. -/
structure Fits (ctx ctx' : Context) (e : Expr) : Prop where
  column : ∀ ref, e = .column ref →
    C.Holds (Lowering.ofOption (ctx.resolver ref)) (Lowering.ofOption (ctx'.resolver ref))
  feature : ∀ feature, e.feature? = some feature →
    C.Holds (Lowering.require (ctx.supports feature)) (Lowering.require (ctx'.supports feature))
  weekday : ∀ name, e.expansion = .unknownWeekday name →
    C.Holds (Lowering.ofOutcome (.unknownWeekday name) : Lowering Fragment)
      (Lowering.ofOutcome (.unknownWeekday name))

/-- One context treats a node in one way. -/
theorem fits_self (ctx : Context) (e : Expr)
    (unknown : ∀ name, C.Holds (Lowering.ofOutcome (.unknownWeekday name) : Lowering Fragment)
      (Lowering.ofOutcome (.unknownWeekday name))) : C.Fits ctx ctx e where
  column ref _ := C.ofOption (ctx.resolver ref)
  feature feature _ := C.require (ctx.supports feature)
  weekday name _ := unknown name

/-- A node that is asked for nothing besides its operands. -/
theorem fits_of_plain {ctx ctx' : Context} {e : Expr} (column : ∀ ref, e ≠ .column ref)
    (feature : e.feature? = none) (expansion : e.expansion = .untranslatable) :
    C.Fits ctx ctx' e where
  column ref same := absurd same (column ref)
  feature _ needed := by simp [feature] at needed
  weekday _ unknown := by simp [expansion] at unknown

end Lowering.Comparison

/-- All that the rules see of an operand: its type, its content if it is a string literal, and its
lowering. -/
structure Expr.Agrees (C : Lowering.Comparison) (ctx ctx' : Context) (e e' : Expr) : Prop where
  dataType : e.dataType = e'.dataType
  stringLiteral? : C.Holds (.ofOption e.stringLiteral?) (.ofOption e'.stringLiteral?)
  lower : C.Holds (e.lower ctx) (e'.lower ctx')

section Calls

variable {C : Lowering.Comparison} {ctx ctx' : Context} {R : Expr → Expr → Prop}

/-- Aggregates over operands that compare. -/
theorem AggregateCall.Rel.lower_compare {call call' : AggregateCall Expr}
    (calls : AggregateCall.Rel R call call')
    (feature : ∀ feature, call.func.feature? = some feature →
      C.Holds (.require (ctx.supports feature)) (.require (ctx'.supports feature)))
    {visit : (c : Expr) → c ∈ call.children → Lowering Fragment}
    {visit' : (c : Expr) → c ∈ call'.children → Lowering Fragment}
    (step : ∀ c mem c' mem', R c c' → C.Holds (visit c mem) (visit' c' mem')) :
    C.Holds (call.lower ctx visit) (call'.lower ctx' visit') := by
  have wellFormed := calls.isWellFormed_eq
  cases calls with
  | @mk func distinct args args' filter filter' arguments filters =>
      rw [AggregateCall.lower, AggregateCall.lower, wellFormed, isAvailable_eq, isAvailable_eq]
      apply C.bind (C.gate feature)
      intro _
      apply C.bind (C.require _)
      intro _
      apply C.bind (C.optional filters fun c _ c' _ => step c _ c' _)
      intro condition
      cases arguments with
      | nil => exact C.pure _
      | cons first rest =>
          exact C.map (C.each (.cons first rest) fun c _ c' _ => step c _ c' _) _

/-- Both sides ask for the same of the offset before they visit the operands. -/
private theorem WindowFunction.shift_compare (name : String) (offset : Int64)
    {input input' : Lowering Fragment} {default default' : Lowering (Option Fragment)}
    (inputs : C.Holds input input') (defaults : C.Holds default default') :
    C.Holds (shift name offset input default) (shift name offset input' default') := by
  apply C.bind (C.require _)
  intro _
  apply C.bind inputs
  intro value
  exact C.map defaults _

/-- Window functions over operands that compare. -/
theorem WindowFunction.Rel.lower_compare {func func' : WindowFunction Expr}
    (functions : WindowFunction.Rel R func func')
    (feature : ∀ feature, func.feature? = some feature →
      C.Holds (.require (ctx.supports feature)) (.require (ctx'.supports feature)))
    {visit : (c : Expr) → c ∈ func.children → Lowering Fragment}
    {visit' : (c : Expr) → c ∈ func'.children → Lowering Fragment}
    (step : ∀ c mem c' mem', R c c' → C.Holds (visit c mem) (visit' c' mem')) :
    C.Holds (func.lower ctx visit) (func'.lower ctx' visit') := by
  cases functions with
  | aggregate calls =>
      have same := calls.distinct_eq
      rw [WindowFunction.lower, WindowFunction.lower, same]
      apply C.bind (C.require _)
      intro _
      exact calls.lower_compare feature step
  | rowNumber | rank | denseRank | percentRank | cumeDist => exact C.pure _
  | ntile buckets => exact C.map (step _ _ _ _ buckets) _
  | lag inputs defaults =>
      exact shift_compare "LAG" _ (step _ _ _ _ inputs)
        (C.optional defaults fun c _ c' _ => step c _ c' _)
  | lead inputs defaults =>
      exact shift_compare "LEAD" _ (step _ _ _ _ inputs)
        (C.optional defaults fun c _ c' _ => step c _ c' _)
  | firstValue inputs | lastValue inputs => exact C.map (step _ _ _ _ inputs) _
  | nthValue inputs =>
      apply C.bind (C.require _)
      intro _
      exact C.map (step _ _ _ _ inputs) _

/-- Windows over keys that compare. -/
theorem WindowCall.Rel.overClause_compare {call call' : WindowCall Expr}
    (calls : WindowCall.Rel R call call')
    {visit : (c : Expr) → c ∈ call.children → Lowering Fragment}
    {visit' : (c : Expr) → c ∈ call'.children → Lowering Fragment}
    (step : ∀ c mem c' mem', R c c' → C.Holds (visit c mem) (visit' c' mem')) :
    C.Holds (call.overClause visit) (call'.overClause visit') := by
  obtain ⟨functions, partitions, orders⟩ := calls
  rw [WindowCall.overClause, WindowCall.overClause]
  apply C.bind (C.each partitions fun c _ c' _ => step c _ c' _)
  intro partition
  apply C.map
  apply C.each orders
  intro key mem key' mem' sorted
  cases sorted with
  | mk related =>
      apply C.bind (C.require _)
      intro _
      exact C.map (step _ _ _ _ related) _

end Calls

namespace Expr

variable {C : Lowering.Comparison} {ctx ctx' : Context}

/-- Rounding is refused on both sides or on neither, as it depends on the types only. -/
theorem Agrees.roundsApproximate_eq {args args' : List Expr}
    (arguments : List.Forall₂ (Agrees C ctx ctx') args args') (f : ScalarFunction) :
    Rule.roundsApproximate f args = Rule.roundsApproximate f args' := by
  cases arguments with
  | nil => rfl
  | cons first rest => simp [Rule.roundsApproximate, first.dataType]

/-- Calls of one function that is not composite, over arguments that compare. -/
theorem lower_call_compare {f : ScalarFunction} (plain : Rule.Kind.ofFunction f ≠ .compositeCall)
    {args args' : List Expr} (arguments : List.Forall₂ (Agrees C ctx ctx') args args')
    (feature : ∀ feature, f.feature? = some feature →
      C.Holds (.require (ctx.supports feature)) (.require (ctx'.supports feature))) :
    C.Holds ((call f args).lower ctx) ((call f args').lower ctx') := by
  have length : args.length = args'.length := arguments.length_eq
  have all : C.Holds (Lowering.each args fun c _ => c.lower ctx)
      (Lowering.each args' fun c _ => c.lower ctx') :=
    C.each arguments fun c _ c' _ related => related.lower
  cases Rule.callCase f args with
  | composite kind => exact absurd kind plain
  | variadic kind =>
      rw [lower_variadicFunction ctx kind, lower_variadicFunction ctx' kind, length]
      apply C.bind (C.ofOption _)
      intro name
      apply C.bind (C.require _)
      intro _
      exact C.map all _
  | leaf kind =>
      cases arguments
      rw [lower_leafFunction ctx kind, lower_leafFunction ctx' kind, Rule.leafCall?_eq ctx,
        Rule.leafCall?_eq ctx']
      have gated (condition : Bool) (x : Option Fragment) :
          Lowering.ofOption (if condition then x else none) =
            Lowering.require condition >>= fun _ => Lowering.ofOption x := by
        cases condition <;> rfl
      rw [gated, gated]
      exact C.bind (C.gate feature) fun _ => C.ofOption _
  | scalar kind =>
      rw [lower_scalarFunction ctx kind, lower_scalarFunction ctx' kind, length,
        Agrees.roundsApproximate_eq arguments]
      apply C.bind (C.ofOption _)
      intro name
      apply C.bind (C.require _)
      intro _
      apply C.bind (C.require _)
      intro _
      exact C.map all _
  | dateArithmetic kind date amount =>
      obtain ⟨⟩ | ⟨dates, ⟨⟩ | ⟨amounts, ⟨⟩⟩⟩ := arguments
      rw [lower_dateArithmetic ctx kind, lower_dateArithmetic ctx' kind]
      apply C.bind (C.ofOption _)
      intro names
      apply C.bind dates.lower
      intro start
      exact C.map amounts.lower _
  | format kind input pattern =>
      obtain ⟨⟩ | ⟨inputs, ⟨⟩ | ⟨patterns, ⟨⟩⟩⟩ := arguments
      rw [lower_formatFunction ctx kind, lower_formatFunction ctx' kind]
      cases known : Rule.formatName? f with
      | none => exact C.untranslatable
      | some names =>
          obtain ⟨name, mode⟩ := names
          have supported := Rule.formatName?_supports known
          show C.Holds (Lowering.require (mode == .symbol || ctx.supports .specifierFormats) >>= _)
            (Lowering.require (mode == .symbol || ctx'.supports .specifierFormats) >>= _)
          rw [supported, supported]
          apply C.bind (C.gate feature)
          intro _
          apply C.bind patterns.stringLiteral?
          intro letters
          apply C.bind inputs.lower
          intro formatted
          exact C.map (C.convert mode letters) _
  | textPredicate kind text part =>
      obtain ⟨⟩ | ⟨texts, ⟨⟩ | ⟨parts, ⟨⟩⟩⟩ := arguments
      rw [lower_textPredicate ctx kind, lower_textPredicate ctx' kind]
      apply C.bind (C.ofOption _)
      intro test
      apply C.bind texts.lower
      intro whole
      exact C.map parts.lower _
  | misfit h =>
      rw [lower_call_of_misfit ctx h, lower_call_of_misfit ctx' (length ▸ h)]
      exact C.untranslatable

/-- Two nodes that are no composite calls are lowered in comparable ways if their operands are and
the contexts treat the nodes themselves so. -/
theorem lower_plain_compare {e e' : Expr} (plain : e.kind ≠ .compositeCall)
    (nodes : NodeRel (Agrees C ctx ctx') e e') (fits : C.Fits ctx ctx' e) :
    C.Holds (e.lower ctx) (e'.lower ctx') := by
  cases nodes with
  | literal value type =>
      rw [lower_literal, lower_literal]
      exact C.ofOption _
  | column ref =>
      rw [lower_column, lower_column]
      exact fits.column ref rfl
  | named name children =>
      rw [lower_alias, lower_alias]
      exact children.lower
  | unary op children =>
      rw [lower_unary, lower_unary]
      exact C.map children.lower _
  | binary op lefts rights =>
      rw [lower_binary, lower_binary]
      apply C.bind lefts.lower
      intro before
      exact C.map rights.lower _
  | call f arguments => exact lower_call_compare plain arguments fits.feature
  | conditional predicates consequents otherwises =>
      rw [lower_conditional, lower_conditional]
      apply C.bind predicates.lower
      intro condition
      apply C.bind consequents.lower
      intro yes
      exact C.map otherwises.lower _
  | @case bs bs' otherwise otherwise' branches otherwises =>
      have empty : bs.isEmpty = bs'.isEmpty := by cases branches <;> rfl
      rw [lower_case, lower_case, empty]
      apply C.bind (C.require _)
      intro _
      apply C.bind
      · apply C.each branches
        intro b _ b' _ related
        obtain ⟨conditions, results⟩ := related
        exact C.bind conditions.lower fun _ => C.map results.lower _
      · intro written
        exact C.map (C.optional otherwises fun c _ c' _ related => related.lower) _
  | pattern kind children regexes =>
      rw [lower_pattern, lower_pattern]
      apply C.bind children.lower
      intro text
      exact C.map regexes.lower _
  | inList negated children members =>
      rw [lower_inList, lower_inList]
      apply C.bind (C.each members fun c _ c' _ related => related.lower)
      intro items
      apply C.bind (C.require _)
      intro _
      exact C.map children.lower _
  | inSet values type negated children =>
      rw [lower_inSet, lower_inSet]
      apply C.bind (C.ofOption _)
      intro items
      apply C.bind (C.require _)
      intro _
      exact C.map children.lower _
  | cast target children =>
      rw [lower_cast, lower_cast, children.dataType]
      apply C.bind children.lower
      intro operand
      split
      · exact C.pure operand
      · exact C.ofOption _
  | aggregate calls =>
      rw [lower_aggregate, lower_aggregate]
      exact calls.lower_compare fits.feature fun c _ c' _ related => related.lower
  | window calls =>
      rw [lower_window, lower_window]
      apply C.bind (calls.functions.lower_compare fits.feature fun c _ c' _ related =>
        related.lower)
      intro function
      exact C.map (calls.overClause_compare fun c _ c' _ related => related.lower) _

/-- Nodes over operands that agree agree in all that the rules see of them, if they do so in their
lowering. -/
theorem Agrees.of_nodes {e e' : Expr} (nodes : NodeRel (Agrees C ctx ctx') e e')
    (lower : C.Holds (e.lower ctx) (e'.lower ctx')) : Agrees C ctx ctx' e e' where
  dataType := nodes.dataType_eq fun _ _ related => related.dataType
  stringLiteral? := by
    rw [nodes.stringLiteral?_eq]
    exact C.ofOption _
  lower := lower

/-- The two statements above together, for nodes that are no composite calls. -/
theorem Agrees.of_plain {e e' : Expr} (plain : e.kind ≠ .compositeCall)
    (nodes : NodeRel (Agrees C ctx ctx') e e') (fits : C.Fits ctx ctx' e) :
    Agrees C ctx ctx' e e' :=
  .of_nodes nodes (lower_plain_compare plain nodes fits)

/-! ## Composite calls -/

/-- The functions that expansions are made of need no feature of the target and are not expanded
again. -/
theorem plain_of_primitive {f : ScalarFunction} (mem : f ∈ Composite.primitives)
    (args : List Expr) :
    (call f args).kind ≠ .compositeCall ∧ f.feature? = none ∧
      Composite.expand f args = .untranslatable := by
  simp only [Composite.primitives, List.mem_cons, List.not_mem_nil, or_false] at mem
  have plain : Rule.Kind.ofFunction f ≠ .compositeCall := by
    rcases mem with rfl | rfl | rfl | rfl | rfl | rfl | rfl <;> decide
  refine ⟨plain, ?_⟩
  rcases mem with rfl | rfl | rfl | rfl | rfl | rfl | rfl <;> exact ⟨rfl, rfl⟩

/-- The nodes that the tree of a composite call adds to its arguments ask nothing of a context. -/
theorem Agrees.closed : Composite.Closed (Agrees C ctx ctx') where
  literal value type :=
    .of_plain nofun (.literal value type) (C.fits_of_plain (fun _ => nofun) rfl rfl)
  cast target children :=
    .of_plain nofun (.cast target children) (C.fits_of_plain (fun _ => nofun) rfl rfl)
  binary op lefts rights :=
    .of_plain nofun (.binary op lefts rights) (C.fits_of_plain (fun _ => nofun) rfl rfl)
  call {f args _} mem arguments := by
    obtain ⟨plain, feature, expansion⟩ := plain_of_primitive mem args
    exact .of_plain plain (.call f arguments) (C.fits_of_plain (fun _ => nofun) feature expansion)

/-- Calls that name their weekdays alike choose the same one, or fail for the same reason. -/
theorem weekdays_eq {R : Expr → Expr → Prop} {f : ScalarFunction} {args args' : List Expr}
    (arguments : List.Forall₂ R args args')
    (names : (call f args).weekdayName? = (call f args').weekdayName?) :
    (weekdayArgument? f args).map Composite.weekday =
      (weekdayArgument? f args').map Composite.weekday := by
  have related := weekdayArgument?_rel f arguments
  rw [weekdayName?, weekdayName?] at names
  revert related names
  generalize weekdayArgument? f args = day, weekdayArgument? f args' = day'
  intro names related
  cases related with
  | none => rfl
  | @some a b days =>
      have contents : a.stringLiteral? = b.stringLiteral? := names
      simp only [Option.map_some, Composite.weekday, contents]

/-- Two nodes that name the same weekday are lowered in comparable ways if their operands are and
the contexts treat the nodes themselves so. -/
theorem lower_compare {e e' : Expr} (nodes : NodeRel (Agrees C ctx ctx') e e')
    (names : e.weekdayName? = e'.weekdayName?) (fits : C.Fits ctx ctx' e) :
    C.Holds (e.lower ctx) (e'.lower ctx') := by
  by_cases composite : e.kind = .compositeCall
  · cases nodes with
    | @call args args' f arguments =>
        -- Both calls stand for trees that are built alike around the arguments, or for none.
        have trees := Agrees.closed.expand (f := f) arguments (weekdays_eq arguments names)
        have unknown := fits.weekday
        rw [lower_compositeCall ctx composite, lower_compositeCall ctx' composite]
        rw [expansion] at unknown
        revert trees unknown
        generalize Composite.expand f args = x, Composite.expand f args' = y
        intro trees unknown
        cases trees with
        | done related => exact related.lower
        | untranslatable => exact C.untranslatable
        | unknownWeekday name => exact unknown name rfl
    | _ => cases composite
  · exact lower_plain_compare composite nodes fits

/-! ## Whole expressions -/

/-- An expression is lowered in comparable ways under two contexts that suit all its parts. -/
theorem lower_compare_of_parts {e : Expr} (fits : ∀ c, e.HasPart c → C.Fits ctx ctx' c) :
    C.Holds (e.lower ctx) (e.lower ctx') := by
  induction e using lowering_induction with
  | step e operand _ =>
      refine lower_compare (NodeRel.of_children e ?_) rfl (fits e .refl)
      intro c mem
      have below : ∀ d, c.HasPart d → C.Fits ctx ctx' d := fun d part => fits d (.head mem part)
      exact ⟨rfl, C.ofOption _, operand c mem below⟩

/-- The same at the root, where an alias is kept. -/
theorem lowerRoot_compare_of_parts {e : Expr} (fits : ∀ c, e.HasPart c → C.Fits ctx ctx' c) :
    C.Holds (e.lowerRoot ctx) (e.lowerRoot ctx') := by
  cases e with
  | «alias» child name =>
      have below : ∀ c, child.HasPart c → C.Fits ctx ctx' c :=
        fun c part => fits c (.head (mem_children_alias child name) part)
      exact C.map (lower_compare_of_parts below) _
  | _ => exact lower_compare_of_parts fits

/-- What is lowered at the root is lowered below it, as an alias at the root is only added. -/
theorem isLowered_of_lowerRoot {e : Expr} {f : Fragment}
    (done : (e.lowerRoot ctx).outcome = .done f) : e.IsLowered ctx := by
  obtain ⟨g, lowered, -⟩ := exists_lower_of_lowerRoot done
  exact ⟨g, lowered⟩

end Expr

end SqlLowering
