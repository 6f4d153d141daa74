import SqlLowering.Lowering.Root
import SqlLowering.Proofs.Outcome

/-!
# One rule for each node

Lowering tries eighteen rules in order. Every node has exactly one rule that may answer for it:
operators, casts and the like by their constructor, and calls by the table that lists the called
function. All other rules pass the node on without lowering any operand of it. So the lowering of a
node is the answer of its own rule, which is stated here as one equation for each kind of node.

Main statements: `Rule.firstOf_standard` and the equations `Expr.lower_column` to
`Expr.lower_window`. Everything said later about lowering starts from these equations and from the
induction principle `Expr.lowering_induction`, which follows the ways down from a node.
-/

namespace SqlLowering

open Dialect Fragment

namespace Lowering

variable {α : Type}

/-- A last rule without an answer changes nothing, as it leaves no note. -/
theorem orElse_untranslatable (x : Lowering α) : (x.orElse fun _ => untranslatable) = x := by
  obtain ⟨notices, outcome⟩ := x
  cases outcome <;> simp [orElse, untranslatable]

/-- Nor does a first one. -/
theorem untranslatable_orElse (next : Unit → Lowering α) : untranslatable.orElse next = next () :=
  rfl

end Lowering

namespace Rule

/-- The kinds of nodes, one for each rule. -/
inductive Kind
  | column | literal | nestedAlias | cast | compositeCall | variadicFunction | aggregate | window
  | binaryOperator | unaryOperator | leafFunction | scalarFunction | dateArithmetic
  | formatFunction | patternMatch | textPredicate | membership | conditional
  deriving DecidableEq

namespace Kind

/-- The rule for the nodes of a kind. -/
def rule : Kind → Rule
  | column => Rule.column
  | literal => Rule.literal
  | nestedAlias => Rule.nestedAlias
  | cast => Rule.cast
  | compositeCall => Rule.compositeCall
  | variadicFunction => Rule.variadicFunction
  | aggregate => Rule.aggregate
  | window => Rule.window
  | binaryOperator => Rule.binaryOperator
  | unaryOperator => Rule.unaryOperator
  | leafFunction => Rule.leafFunction
  | scalarFunction => Rule.scalarFunction
  | dateArithmetic => Rule.dateArithmetic
  | formatFunction => Rule.formatFunction
  | patternMatch => Rule.patternMatch
  | textPredicate => Rule.textPredicate
  | membership => Rule.membership
  | conditional => Rule.conditional

/-- The kind of a call, by the table that lists its function. -/
def ofFunction (f : ScalarFunction) : Kind :=
  if f.isComposite then compositeCall
  else if (variadicName? f).isSome then variadicFunction
  else if f.shape = .leaf then leafFunction
  else if (dateArithmeticName? f).isSome then dateArithmetic
  else if (formatName? f).isSome then formatFunction
  else if (textTest? f).isSome then textPredicate
  else scalarFunction

/-- A call is of one of seven kinds. -/
theorem ofFunction_mem (f : ScalarFunction) :
    ofFunction f ∈ [compositeCall, variadicFunction, leafFunction, scalarFunction, dateArithmetic,
      formatFunction, textPredicate] := by
  rw [ofFunction]
  split_ifs <;> decide

/-- The kinds in the order of the rules. -/
def all : List Kind :=
  [column, literal, nestedAlias, cast, compositeCall, variadicFunction, aggregate, window,
   binaryOperator, unaryOperator, leafFunction, scalarFunction, dateArithmetic, formatFunction,
   patternMatch, textPredicate, membership, conditional]

theorem standard_eq_map_rule : standard = all.map rule := rfl

/-- No kind has two rules, so a rule cannot take a node from another one. -/
theorem nodup_all : all.Nodup := by decide

/-- Every kind has a rule. -/
theorem mem_all (k : Kind) : k ∈ all := by cases k <;> decide

end Kind

end Rule

/-- The kind of a node. -/
def Expr.kind : Expr → Rule.Kind
  | .literal .. => .literal
  | .column _ => .column
  | .alias .. => .nestedAlias
  | .unary .. => .unaryOperator
  | .binary .. => .binaryOperator
  | .call func _ => .ofFunction func
  | .conditional .. | .case .. => .conditional
  | .pattern .. => .patternMatch
  | .inList .. | .inSet .. => .membership
  | .cast .. => .cast
  | .aggregate _ => .aggregate
  | .window _ => .window

namespace Rule

/-- A call is passed on by the rules for calls of other kinds: their tables do not list its
function. -/
private theorem rule_call_of_ne {k : Kind} {f : ScalarFunction} (ne : Kind.ofFunction f ≠ k)
    (ctx : Context) (args : List Expr) (d : Descent (.call f args)) :
    k.rule ctx (.call f args) d = .untranslatable := by
  cases k with
  | compositeCall =>
      have unlisted : (Expr.call f args).expansion = .untranslatable := by
        cases f <;> first | rfl | exact absurd rfl ne
      simp only [Kind.rule, compositeCall]
      split
      · simp_all
      · rfl
      · simp_all
  | variadicFunction =>
      have unlisted : variadicName? f = none := by cases f <;> first | rfl | exact absurd rfl ne
      simp only [Kind.rule, variadicFunction, unlisted]
      rfl
  | leafFunction =>
      have unlisted : leafCall? ctx f = none := by cases f <;> first | rfl | exact absurd rfl ne
      cases args with
      | nil =>
          simp only [Kind.rule, leafFunction, unlisted]
          rfl
      | cons first rest => rfl
  | scalarFunction =>
      have unlisted : scalarName? f = none := by cases f <;> first | rfl | exact absurd rfl ne
      simp only [Kind.rule, scalarFunction, unlisted]
      rfl
  | dateArithmetic =>
      have unlisted : dateArithmeticName? f = none := by
        cases f <;> first | rfl | exact absurd rfl ne
      match args, d with
      | [], _ | [_], _ | _ :: _ :: _ :: _, _ => rfl
      | [_, _], _ =>
          simp only [Kind.rule, dateArithmetic, unlisted]
          rfl
  | formatFunction =>
      have unlisted : formatName? f = none := by cases f <;> first | rfl | exact absurd rfl ne
      match args, d with
      | [], _ | [_], _ | _ :: _ :: _ :: _, _ => rfl
      | [_, _], _ =>
          simp only [Kind.rule, formatFunction, unlisted]
          rfl
  | textPredicate =>
      have unlisted : textTest? f = none := by cases f <;> first | rfl | exact absurd rfl ne
      match args, d with
      | [], _ | [_], _ | _ :: _ :: _ :: _, _ => rfl
      | [_, _], _ =>
          simp only [Kind.rule, textPredicate, unlisted]
          rfl
  | _ => rfl

/-- A rule passes on the nodes of all other kinds, without a note. -/
theorem rule_of_kind_ne {k : Kind} {e : Expr} (ne : e.kind ≠ k) (ctx : Context) (d : Descent e) :
    k.rule ctx e d = .untranslatable := by
  cases e with
  | call f args => exact rule_call_of_ne ne ctx args d
  | _ => cases k <;> first | rfl | exact absurd rfl ne

/-- Among rules for different kinds, the one for the kind of the node gives the answer wherever it
stands. -/
theorem firstOf_map_rule (ctx : Context) (e : Expr) (d : Descent e) {kinds : List Kind}
    (nodup : kinds.Nodup) :
    firstOf ctx e d (kinds.map Kind.rule) =
      if e.kind ∈ kinds then e.kind.rule ctx e d else .untranslatable := by
  induction kinds with
  | nil => rfl
  | cons k kinds ih =>
      rw [List.map_cons, firstOf, ih (List.nodup_cons.mp nodup).2]
      by_cases same : e.kind = k
      · have absent : e.kind ∉ kinds := same ▸ (List.nodup_cons.mp nodup).1
        rw [if_neg absent, Lowering.orElse_untranslatable, if_pos (same ▸ List.mem_cons_self), same]
      · rw [rule_of_kind_ne same, Lowering.untranslatable_orElse]
        simp [same]

/-- The answer of all rules in order is that of the rule for the kind of the node. -/
theorem firstOf_standard (ctx : Context) (e : Expr) (d : Descent e) :
    firstOf ctx e d standard = e.kind.rule ctx e d := by
  rw [Kind.standard_eq_map_rule, firstOf_map_rule ctx e d Kind.nodup_all, if_pos e.kind.mem_all]

end Rule

namespace Rule

/-- The function belongs to a kind whose calls have a fixed number of arguments, and this is another
number. -/
def Misfit (f : ScalarFunction) (count : Nat) : Prop :=
  Kind.ofFunction f = .leafFunction ∧ count ≠ 0 ∨
    (Kind.ofFunction f = .dateArithmetic ∨ Kind.ofFunction f = .formatFunction ∨
      Kind.ofFunction f = .textPredicate) ∧ count ≠ 2

/-- The ways in which a call can be lowered, by the kind of its function and the number of its
arguments. -/
inductive CallCase (f : ScalarFunction) : List Expr → Prop
  | composite (kind : Kind.ofFunction f = .compositeCall) (args : List Expr) : CallCase f args
  | variadic (kind : Kind.ofFunction f = .variadicFunction) (args : List Expr) : CallCase f args
  | leaf (kind : Kind.ofFunction f = .leafFunction) : CallCase f []
  | scalar (kind : Kind.ofFunction f = .scalarFunction) (args : List Expr) : CallCase f args
  | dateArithmetic (kind : Kind.ofFunction f = .dateArithmetic) (date amount : Expr) :
      CallCase f [date, amount]
  | format (kind : Kind.ofFunction f = .formatFunction) (input pattern : Expr) :
      CallCase f [input, pattern]
  | textPredicate (kind : Kind.ofFunction f = .textPredicate) (text part : Expr) :
      CallCase f [text, part]
  | misfit {args : List Expr} (h : Misfit f args.length) : CallCase f args

/-- Every call can be lowered in one of these ways. -/
theorem callCase (f : ScalarFunction) (args : List Expr) : CallCase f args := by
  have mem := Kind.ofFunction_mem f
  cases kind : Kind.ofFunction f with
  | compositeCall => exact .composite kind args
  | variadicFunction => exact .variadic kind args
  | scalarFunction => exact .scalar kind args
  | leafFunction =>
      cases args with
      | nil => exact .leaf kind
      | cons first rest => exact .misfit (.inl ⟨kind, by simp⟩)
  | dateArithmetic =>
      match args with
      | [date, amount] => exact .dateArithmetic kind date amount
      | [] | [_] | _ :: _ :: _ :: _ => exact .misfit (.inr ⟨.inl kind, by simp⟩)
  | formatFunction =>
      match args with
      | [input, pattern] => exact .format kind input pattern
      | [] | [_] | _ :: _ :: _ :: _ => exact .misfit (.inr ⟨.inr (.inl kind), by simp⟩)
  | textPredicate =>
      match args with
      | [text, part] => exact .textPredicate kind text part
      | [] | [_] | _ :: _ :: _ :: _ => exact .misfit (.inr ⟨.inr (.inr kind), by simp⟩)
  | _ =>
      rw [kind] at mem
      exact absurd mem (by decide)

end Rule

/-- The ways down that lowering by the standard rules takes. -/
def Descent.standard (ctx : Context) (e : Expr) : Descent e :=
  ⟨fun c _ => c.lower ctx, fun tree _ => tree.lower ctx⟩

namespace Expr

/-- A node is lowered by the rule for its kind. -/
theorem lower_eq_rule (ctx : Context) (e : Expr) :
    e.lower ctx = e.kind.rule ctx e (.standard ctx e) := by
  rw [lower, Rule.lowerWith, ← Rule.firstOf_standard]
  rfl

section Equations

variable (ctx : Context)

/-- The name of a column is left to the resolver of the context. -/
theorem lower_column (ref : ColumnRef) : (column ref).lower ctx = .ofOption (ctx.resolver ref) :=
  lower_eq_rule ctx _

/-- A literal is written by its value and its declared type, whatever the context is. -/
theorem lower_literal (value : Value) (type : DataType) :
    (literal value type).lower ctx = .ofOption (Literal.encode value type) :=
  lower_eq_rule ctx _

/-- Below the root an alias has no effect. -/
theorem lower_alias (child : Expr) (name : String) :
    (Expr.alias child name).lower ctx = child.lower ctx :=
  lower_eq_rule ctx _

/-- The operand is lowered before the types are compared, and stays as it is if they are equal. -/
theorem lower_cast (child : Expr) (target : DataType) :
    (cast child target).lower ctx = (do
      let operand ← child.lower ctx
      if child.dataType = target then
        pure operand
      else
        .ofOption (Conversion.convert? operand child.dataType target)) :=
  lower_eq_rule ctx _

/-- An operator with one operand can always be written. -/
theorem lower_unary (op : UnaryOp) (child : Expr) :
    (unary op child).lower ctx = (do
      let operand ← child.lower ctx
      pure (Rule.applyUnary op operand)) :=
  lower_eq_rule ctx _

/-- An operation is put in parentheses, so that the order of evaluation does not depend on the
target. -/
theorem lower_binary (op : BinaryOp) (left right : Expr) :
    (binary op left right).lower ctx = (do
      let before ← left.lower ctx
      let after ← right.lower ctx
      pure (parenthesize (words [before, .raw op.token, after]))) :=
  lower_eq_rule ctx _

/-- All three operands are lowered, in the order in which they are given. -/
theorem lower_conditional (predicate consequent otherwise : Expr) :
    (conditional predicate consequent otherwise).lower ctx = (do
      let condition ← predicate.lower ctx
      let yes ← consequent.lower ctx
      let no ← otherwise.lower ctx
      pure (Rule.ifElse condition yes no)) :=
  lower_eq_rule ctx _

/-- A case without branches cannot be written, and the conditions are lowered along with their
results. -/
theorem lower_case (branches : List (Expr × Expr)) (otherwise : Option Expr) :
    (case branches otherwise).lower ctx = (do
      Lowering.require (!branches.isEmpty)
      let branches ← Lowering.each branches fun branch _ => do
        let condition ← branch.1.lower ctx
        let result ← branch.2.lower ctx
        pure (Rule.branchWords condition result)
      let otherwise ← Lowering.optional otherwise fun e _ => e.lower ctx
      pure (Rule.caseWhen branches otherwise)) :=
  lower_eq_rule ctx _

theorem lower_pattern (kind : MatchKind) (child regex : Expr) :
    (pattern kind child regex).lower ctx = (do
      let text ← child.lower ctx
      let pattern ← regex.lower ctx
      pure (parenthesize (words (Rule.matchWords kind text pattern)))) :=
  lower_eq_rule ctx _

/-- The members are lowered before the value, and a test against no members cannot be written. -/
theorem lower_inList (child : Expr) (items : List Expr) (negated : Bool) :
    (inList child items negated).lower ctx = (do
      let members ← Lowering.each items fun c _ => c.lower ctx
      Lowering.require (!members.isEmpty)
      let value ← child.lower ctx
      pure (Rule.memberTest value members negated)) :=
  lower_eq_rule ctx _

/-- The members of a set are values, so they are written by their common type. -/
theorem lower_inSet (child : Expr) (values : List Value) (type : DataType) (negated : Bool) :
    (inSet child values type negated).lower ctx = (do
      let members ← Lowering.ofOption (Literal.encodeAll values type)
      Lowering.require (!members.isEmpty)
      let value ← child.lower ctx
      pure (Rule.memberTest value members negated)) :=
  lower_eq_rule ctx _

theorem lower_aggregate (call : AggregateCall Expr) :
    (aggregate call).lower ctx = call.lower ctx fun c _ => c.lower ctx :=
  lower_eq_rule ctx _

/-- The function is lowered before the clause. -/
theorem lower_window (call : WindowCall Expr) :
    (window call).lower ctx = (do
      let function ← call.func.lower ctx fun c _ => c.lower ctx
      let clause ← call.overClause fun c _ => c.lower ctx
      pure (words [function, .raw "OVER", clause])) :=
  lower_eq_rule ctx _

variable {f : ScalarFunction}

/-- A composite call is lowered as the tree it stands for. -/
theorem lower_compositeCall (h : Rule.Kind.ofFunction f = .compositeCall) (args : List Expr) :
    (call f args).lower ctx =
      Lowering.ofOutcome (Composite.expand f args) >>= fun tree => tree.lower ctx := by
  rw [lower_eq_rule, kind, h]
  simp only [Rule.Kind.rule, Rule.compositeCall]
  split <;> rename_i expanded <;> rw [show Composite.expand f args = _ from expanded] <;> rfl

/-- A function with many arguments is called by its name once the number of arguments fits. -/
theorem lower_variadicFunction (h : Rule.Kind.ofFunction f = .variadicFunction)
    (args : List Expr) :
    (call f args).lower ctx = (do
      let name ← Lowering.ofOption (Rule.variadicName? f)
      Lowering.require (f.shape.accepts args.length)
      pure (func name (← Lowering.each args fun c _ => c.lower ctx))) := by
  rw [lower_eq_rule, kind, h]
  rfl

/-- A function without arguments is written by the table, which asks the context for features. -/
theorem lower_leafFunction (h : Rule.Kind.ofFunction f = .leafFunction) :
    (call f []).lower ctx = .ofOption (Rule.leafCall? ctx f) := by
  rw [lower_eq_rule, kind, h]
  rfl

/-- A function with a range of arguments is called by its name, except that a binary number is not
rounded. -/
theorem lower_scalarFunction (h : Rule.Kind.ofFunction f = .scalarFunction) (args : List Expr) :
    (call f args).lower ctx = (do
      let name ← Lowering.ofOption (Rule.scalarName? f)
      Lowering.require (f.shape.accepts args.length)
      Lowering.require (!Rule.roundsApproximate f args)
      pure (func name (← Lowering.each args fun c _ => c.lower ctx))) := by
  rw [lower_eq_rule, kind, h]
  rfl

/-- The second argument is written as an interval, with the unit that belongs to the function. -/
theorem lower_dateArithmetic (h : Rule.Kind.ofFunction f = .dateArithmetic)
    (date amount : Expr) :
    (call f [date, amount]).lower ctx = (do
      let (name, unit) ← Lowering.ofOption (Rule.dateArithmeticName? f)
      let start ← date.lower ctx
      let distance ← amount.lower ctx
      pure (func name [start, words [.raw "INTERVAL", distance, .raw unit]])) := by
  rw [lower_eq_rule, kind, h]
  rfl

/-- The pattern must be a literal, and the input is lowered before the pattern is converted. -/
theorem lower_formatFunction (h : Rule.Kind.ofFunction f = .formatFunction)
    (input pattern : Expr) :
    (call f [input, pattern]).lower ctx = (do
      let (name, mode) ← Lowering.ofOption (Rule.formatName? f)
      Lowering.require (mode == .symbol || ctx.supports .specifierFormats)
      let letters ← Lowering.ofOption pattern.stringLiteral?
      let formatted ← input.lower ctx
      let converted ← Lowering.convert mode letters
      pure (func name [formatted, bindText converted])) := by
  rw [lower_eq_rule, kind, h]
  rfl

/-- A test is a comparison, so it is put in parentheses. -/
theorem lower_textPredicate (h : Rule.Kind.ofFunction f = .textPredicate) (text part : Expr) :
    (call f [text, part]).lower ctx = (do
      let test ← Lowering.ofOption (Rule.textTest? f)
      let whole ← text.lower ctx
      let sought ← part.lower ctx
      pure (parenthesize (words (test whole sought)))) := by
  rw [lower_eq_rule, kind, h]
  rfl

/-- A call of a kind that fixes the number of its arguments has no equivalent with another number
of them. -/
theorem lower_call_of_misfit {args : List Expr} (h : Rule.Misfit f args.length) :
    (call f args).lower ctx = .untranslatable := by
  rw [lower_eq_rule, kind]
  rcases h with ⟨h, ne⟩ | ⟨h | h | h, ne⟩ <;> rw [h] <;>
    rcases args with _ | ⟨first, _ | ⟨second, _ | ⟨third, rest⟩⟩⟩ <;>
      first | rfl | exact absurd rfl ne

end Equations

/-- What holds of a node whenever it holds of its operands and of the tree it stands for holds of
every expression. -/
theorem lowering_induction {motive : Expr → Prop}
    (step : ∀ e : Expr, (∀ c ∈ e.children, motive c) →
      (∀ tree, e.expansion = .done tree → motive tree) → motive e) (e : Expr) : motive e :=
  step e (fun c _ => lowering_induction step c) fun tree _ => lowering_induction step tree
termination_by (e.compositeDepth, e.size)
decreasing_by
  · rename_i h
    have depth := compositeDepth_le_of_mem_children h
    have size := size_lt_of_mem_children h
    rw [Prod.lex_def]
    omega
  · rename_i h
    exact Prod.Lex.left _ _ (compositeDepth_lt_of_expansion h)

end Expr

end SqlLowering
