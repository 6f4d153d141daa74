import SqlLowering.Proofs.Assembly

/-!
# The notes of a lowering

Every date pattern that is converted leaves a note. Which notes an expression calls for can be read
off the expression: those of its operands in the order in which they are lowered, and then the one
for its own pattern. A composite call has the notes of the tree it stands for, so an argument that
stands in the tree three times leaves its notes three times, while a fragment that is written twice
leaves none.

Main statement: `Expr.lowerRoot_notices`. A lowering leaves these notes in this order, each of them
once. It may stop early, for want of an equivalent or because of an unknown weekday, and then the
notes stop there too; a lowering with a result leaves all of them.
-/

namespace SqlLowering

open Dialect Fragment Format

/-! ## The notes that an expression calls for -/

namespace Expr

/-- The note for the pattern of a node, if the node is a call with a date pattern. -/
def patternNotice? : Expr → Option Notice
  | .call f [_, format] => do
    let (_, mode) ← Rule.formatName? f
    let letters ← format.stringLiteral?
    pure (mode.notice letters)
  | _ => none

/-- All conversions that an expression calls for, with composite calls expanded: those of the
operands before the one of the node. Operands come in the order of `children`: members before the
value that is looked for, a filter before the arguments of its aggregate, a window function before
its partition keys and these before its sort keys, and otherwise from left to right. -/
def conversions (e : Expr) : List Notice :=
  match _stands : e.expansion with
  | .done tree => tree.conversions
  | .untranslatable | .unknownWeekday _ =>
    (e.children.attach.flatMap fun c => c.1.conversions) ++ e.patternNotice?.toList
termination_by (e.compositeDepth, e.size)
decreasing_by
  · exact Prod.Lex.left _ _ (compositeDepth_lt_of_expansion ‹_›)
  all_goals
    have depth := compositeDepth_le_of_mem_children c.2
    have size := size_lt_of_mem_children c.2
    rw [Prod.lex_def]
    omega

/-- A composite call has no notes of its own, only those of its tree. -/
theorem conversions_of_expansion {e tree : Expr} (stands : e.expansion = .done tree) :
    e.conversions = tree.conversions := by
  rw [conversions]
  split
  · rename_i other found
    rw [Outcome.done.inj (found.symm.trans stands)]
  all_goals
    rename_i found
    cases found.symm.trans stands

/-- Any other node has the notes of its operands and then its own. -/
theorem conversions_of_plain {e : Expr} (plain : ∀ tree, e.expansion ≠ .done tree) :
    e.conversions = e.children.flatMap conversions ++ e.patternNotice?.toList := by
  have operands : (e.children.attach.flatMap fun c => c.1.conversions) =
      e.children.flatMap conversions := by
    rw [List.flatMap_def, List.attach_map_val (f := conversions), List.flatMap_def]
  rw [conversions]
  split
  · rename_i tree stands
    exact absurd stands (plain tree)
  · rw [operands]
  · rw [operands]

end Expr

/-! ## Keeping to a plan -/

namespace Lowering

variable {α β : Type}

/-- The notes of a lowering keep to a plan: they are a beginning of it, and the whole of it if there
is a result. -/
structure Follows (x : Lowering α) (plan : List Notice) : Prop where
  begins : x.notices <+: plan
  complete : ∀ a, x.outcome = .done a → x.notices = plan

namespace Follows

variable {x : Lowering α} {f : α → Lowering β} {plan rest : List Notice}

/-- What ends without a result and without a note keeps to every plan. -/
theorem of_failed (silent : x.notices = []) (failed : ∀ a, x.outcome ≠ .done a) :
    Follows x plan where
  begins := silent ▸ List.nil_prefix
  complete a done := absurd done (failed a)

theorem untranslatable : Follows (Lowering.untranslatable : Lowering α) plan :=
  of_failed rfl fun _ => nofun

theorem unknownWeekday (name : String) :
    Follows (Lowering.ofOutcome (.unknownWeekday name) : Lowering α) plan :=
  of_failed rfl fun _ => nofun

theorem pure (a : α) : Follows (Pure.pure a : Lowering α) [] :=
  ⟨List.nil_prefix, fun _ _ => rfl⟩

theorem ofOption (x : Option α) : Follows (Lowering.ofOption x) [] :=
  ⟨List.nil_prefix, fun _ _ => rfl⟩

/-- A conversion leaves one note and always has a result. -/
theorem convert (mode : Mode) (letters : String) :
    Follows (Lowering.convert mode letters) [mode.notice letters] :=
  ⟨List.prefix_refl _, fun _ _ => rfl⟩

/-- Two lowerings one after the other keep to their plans one after the other: the second starts
only when the first has left all its notes. -/
theorem bind (first : Follows x plan) (next : ∀ a, Follows (f a) rest) :
    Follows (x >>= f) (plan ++ rest) := by
  obtain ⟨notices, outcome⟩ := x
  cases outcome with
  | done a =>
      obtain rfl : notices = plan := first.complete a rfl
      constructor
      · exact (List.prefix_append_right_inj notices).mpr (next a).begins
      · intro b done
        exact congrArg (notices ++ ·) ((next a).complete b done)
  | untranslatable => exact ⟨first.begins.trans (List.prefix_append plan rest), fun _ => nofun⟩
  | unknownWeekday name =>
      exact ⟨first.begins.trans (List.prefix_append plan rest), fun _ => nofun⟩

/-- Writing down the result adds no note. -/
theorem map (g : α → β) (first : Follows x plan) :
    Follows (x >>= fun a => Pure.pure (g a)) plan := by
  have both := bind first fun a => pure (g a)
  rwa [List.append_nil] at both

/-- What is written from two results has the notes of the first before those of the second. -/
theorem both {y : Lowering β} {γ : Type} (g : α → β → γ) (first : Follows x plan)
    (second : Follows y rest) :
    Follows (x >>= fun a => y >>= fun b => Pure.pure (g a b)) (plan ++ rest) :=
  bind first fun a => map (g a) second

/-- Choosing from a table adds no note. -/
theorem bind_ofOption (x : Option α) (next : ∀ a, x = some a → Follows (f a) plan) :
    Follows (Lowering.ofOption x >>= f) plan := by
  cases x with
  | none => exact untranslatable
  | some a => exact next a rfl

/-- A requirement adds no note. -/
theorem bind_require (condition : Bool) {f : Unit → Lowering β} (next : Follows (f ()) plan) :
    Follows (Lowering.require condition >>= f) plan := by
  cases condition with
  | false => exact untranslatable
  | true => exact next

/-- The members of a list keep to their plans in order. -/
theorem each {xs : List α} {f : (a : α) → a ∈ xs → Lowering β} {plan : α → List Notice}
    (step : ∀ a mem, Follows (f a mem) (plan a)) :
    Follows (Lowering.each xs f) (xs.flatMap plan) := by
  induction xs with
  | nil => exact pure []
  | cons a as ih =>
      rw [Lowering.each, List.flatMap_cons]
      apply bind (step a List.mem_cons_self)
      intro first
      apply map
      exact ih fun b mem => step b (List.mem_cons_of_mem a mem)

/-- A missing operand leaves no note. -/
theorem optional {x : Option α} {f : (a : α) → x = some a → Lowering β} {plan : α → List Notice}
    (step : ∀ a there, Follows (f a there) (plan a)) :
    Follows (Lowering.optional x f) (x.toList.flatMap plan) := by
  cases x with
  | none => exact pure none
  | some a =>
      rw [Option.toList_some, List.flatMap_singleton]
      exact map some (step a rfl)

end Follows

end Lowering

/-! ## One node -/

section Calls

open Lowering

variable {ctx : Context} {plan : Expr → List Notice}

/-- The filter comes before the arguments, and no requirement leaves a note. -/
theorem AggregateCall.lower_follows {call : AggregateCall Expr}
    {visit : (c : Expr) → c ∈ call.children → Lowering Fragment}
    (step : ∀ c mem, Follows (visit c mem) (plan c)) :
    Follows (call.lower ctx visit) (call.children.flatMap plan) := by
  rw [AggregateCall.lower, children, List.flatMap_append]
  apply Follows.bind_require
  apply Follows.bind_require
  apply Follows.bind (.optional fun c there => step c (mem_children_of_filter there))
  intro filter
  split
  · rename_i empty
    rw [List.isEmpty_iff.mp empty]
    exact .pure _
  · exact .map _ (.each fun c mem => step c (mem_children_of_mem_args mem))

/-- The default comes after the input. -/
private theorem WindowFunction.shift_follows (name : String) (offset : Int64)
    {input : Lowering Fragment} {default : Lowering (Option Fragment)} {first rest : List Notice}
    (inputs : Follows input first) (defaults : Follows default rest) :
    Follows (shift name offset input default) (first ++ rest) := by
  apply Follows.bind_require
  exact .both _ inputs defaults

/-- A window function leaves the notes of its operands in their order. -/
theorem WindowFunction.lower_follows {f : WindowFunction Expr}
    {visit : (c : Expr) → c ∈ f.children → Lowering Fragment}
    (step : ∀ c mem, Follows (visit c mem) (plan c)) :
    Follows (f.lower ctx visit) (f.children.flatMap plan) := by
  cases f with
  | aggregate call =>
      apply Follows.bind_require
      exact AggregateCall.lower_follows step
  | rowNumber | rank | denseRank | percentRank | cumeDist => exact .pure _
  | ntile input | firstValue input | lastValue input =>
      rw [children, List.flatMap_singleton]
      exact .map _ (step input _)
  | nthValue input n =>
      rw [children, List.flatMap_singleton]
      apply Follows.bind_require
      exact .map _ (step input _)
  | lag input offset default =>
      rw [children, List.flatMap_cons]
      exact shift_follows "LAG" offset (step input _)
        (.optional fun c there => step c (mem_children_of_lag_default there))
  | lead input offset default =>
      rw [children, List.flatMap_cons]
      exact shift_follows "LEAD" offset (step input _)
        (.optional fun c there => step c (mem_children_of_lead_default there))

/-- The partition keys come before the sort keys. -/
theorem WindowCall.overClause_follows {call : WindowCall Expr}
    {visit : (c : Expr) → c ∈ call.children → Lowering Fragment}
    (step : ∀ c mem, Follows (visit c mem) (plan c)) :
    Follows (call.overClause visit)
      (call.partitionBy.flatMap plan ++ call.orderBy.flatMap fun key => plan key.expr) := by
  rw [overClause]
  apply Follows.bind (.each fun c mem => step c (mem_children_of_mem_partitionBy mem))
  intro partition
  apply Follows.map
  apply Follows.each
  intro key mem
  apply Follows.bind_require
  exact .map _ (step key.expr (mem_children_of_mem_orderBy mem))

end Calls

namespace Rule

/-- Only the functions of one kind have a date pattern. -/
theorem formatName?_eq_none {f : ScalarFunction} (ne : Kind.ofFunction f ≠ .formatFunction) :
    formatName? f = none := by
  cases f <;> first | rfl | exact absurd rfl ne

/-- Conversely a function in the table of patterns is of that kind. -/
theorem kind_of_formatName? {f : ScalarFunction} {names : String × Mode}
    (known : formatName? f = some names) : Kind.ofFunction f = .formatFunction := by
  by_contra ne
  rw [formatName?_eq_none ne] at known
  cases known

end Rule

namespace Expr

open Lowering

variable {ctx : Context}

/-- Only a composite call stands for a tree. -/
theorem expansion_ne_done {e : Expr} (plain : e.kind ≠ .compositeCall) (tree : Expr) :
    e.expansion ≠ .done tree := by
  intro stands
  cases e with
  | call f args =>
      have composite := (Composite.compositeDepth_le_of_expand stands).1
      exact plain (if_pos composite)
  | _ => cases stands

/-- The plan of a node without a pattern of its own is that of its operands. -/
theorem conversions_of_operands {e : Expr} (plain : e.kind ≠ .compositeCall)
    (ne : e.kind ≠ .formatFunction) : e.conversions = e.children.flatMap conversions := by
  have silent : e.patternNotice? = none := by
    cases e with
    | call f args =>
        unfold patternNotice?
        split
        · rename_i same
          cases same
          rw [Rule.formatName?_eq_none ne]
          rfl
        · rfl
    | _ => rfl
  rw [conversions_of_plain (expansion_ne_done plain), silent, Option.toList_none, List.append_nil]

/-- Only a call has a pattern or an expansion. -/
theorem conversions_of_ne_call {e : Expr} (other : ∀ f args, e ≠ call f args) :
    e.conversions = e.children.flatMap conversions := by
  cases e with
  | call f args => exact absurd rfl (other f args)
  | _ =>
      apply conversions_of_operands
      all_goals
        intro kind
        cases kind

/-- A literal has no operands, so the pattern of a call adds no note but that for its conversion. -/
theorem conversions_of_stringLiteral? {e : Expr} {letters : String}
    (literal : e.stringLiteral? = some letters) : e.conversions = [] := by
  cases e with
  | literal value type =>
      apply conversions_of_ne_call
      intro f args same
      cases same
  | _ => cases literal

/-- The plan of a call with a date pattern is that of its input, and then the pattern. -/
theorem conversions_of_format {f : ScalarFunction} {name letters : String} {mode : Mode}
    (known : Rule.formatName? f = some (name, mode)) (input : Expr) {format : Expr}
    (literal : format.stringLiteral? = some letters) :
    (call f [input, format]).conversions = input.conversions ++ [mode.notice letters] := by
  have plain : (call f [input, format]).kind ≠ .compositeCall := by
    rw [kind, Rule.kind_of_formatName? known]
    intro same
    cases same
  have noted : (call f [input, format]).patternNotice? = some (mode.notice letters) := by
    rw [patternNotice?, known, literal]
    rfl
  rw [conversions_of_plain (expansion_ne_done plain), noted, children, List.flatMap_cons,
    List.flatMap_singleton, conversions_of_stringLiteral? literal, List.append_nil,
    Option.toList_some]

/-- A call of a function without a date pattern keeps to the plans of its arguments. -/
theorem lower_call_follows {f : ScalarFunction} {plan : Expr → List Notice}
    (plain : Rule.Kind.ofFunction f ≠ .compositeCall)
    (ne : Rule.Kind.ofFunction f ≠ .formatFunction) {args : List Expr}
    (step : ∀ c ∈ args, Follows (c.lower ctx) (plan c)) :
    Follows ((call f args).lower ctx) (args.flatMap plan) := by
  have all : Follows (each args fun c _ => c.lower ctx) (args.flatMap plan) := .each step
  cases Rule.callCase f args with
  | composite kind => exact absurd kind plain
  | variadic kind =>
      rw [lower_variadicFunction ctx kind]
      apply Follows.bind_ofOption
      intro name _
      apply Follows.bind_require
      exact .map _ all
  | leaf kind =>
      rw [lower_leafFunction ctx kind]
      exact .ofOption _
  | scalar kind =>
      rw [lower_scalarFunction ctx kind]
      apply Follows.bind_ofOption
      intro name _
      apply Follows.bind_require
      apply Follows.bind_require
      exact .map _ all
  | dateArithmetic kind date amount =>
      rw [lower_dateArithmetic ctx kind, List.flatMap_cons, List.flatMap_singleton]
      apply Follows.bind_ofOption
      intro names _
      exact .both _ (step date (.head _)) (step amount (.tail _ (.head _)))
  | format kind => exact absurd kind ne
  | textPredicate kind text part =>
      rw [lower_textPredicate ctx kind, List.flatMap_cons, List.flatMap_singleton]
      apply Follows.bind_ofOption
      intro test _
      exact .both _ (step text (.head _)) (step part (.tail _ (.head _)))
  | misfit h =>
      rw [lower_call_of_misfit ctx h]
      exact .untranslatable

/-- A node without a pattern of its own keeps to the plans of its operands. -/
theorem lower_operands_follow {e : Expr} {plan : Expr → List Notice}
    (plain : e.kind ≠ .compositeCall) (ne : e.kind ≠ .formatFunction)
    (step : ∀ c ∈ e.children, Follows (c.lower ctx) (plan c)) :
    Follows (e.lower ctx) (e.children.flatMap plan) := by
  cases e with
  | literal value type =>
      rw [lower_literal]
      exact .ofOption _
  | column ref =>
      rw [lower_column]
      exact .ofOption _
  | «alias» child name =>
      rw [lower_alias, children, List.flatMap_singleton]
      exact step child (mem_children_alias child name)
  | unary op child =>
      rw [lower_unary, children, List.flatMap_singleton]
      exact .map _ (step child (mem_children_unary op child))
  | binary op left right =>
      rw [lower_binary, children, List.flatMap_cons, List.flatMap_singleton]
      exact .both _ (step left (left_mem_children op left right))
        (step right (right_mem_children op left right))
  | call f args => exact lower_call_follows plain ne step
  | conditional predicate consequent otherwise =>
      rw [lower_conditional, children, List.flatMap_cons, List.flatMap_cons,
        List.flatMap_singleton]
      apply Follows.bind (step predicate (predicate_mem_children _ _ _))
      intro condition
      exact .both _ (step consequent (consequent_mem_children _ _ _))
        (step otherwise (otherwise_mem_children _ _ _))
  | case branches otherwise =>
      rw [lower_case, children, List.flatMap_append, List.flatMap_assoc]
      apply Follows.bind_require
      apply Follows.bind
      · apply Follows.each
        intro branch mem
        rw [List.flatMap_cons, List.flatMap_singleton]
        exact .both _ (step branch.1 (condition_mem_children mem))
          (step branch.2 (result_mem_children mem))
      · intro written
        exact .map _ (.optional fun c there => step c (mem_children_of_case_otherwise there))
  | pattern kind child regex =>
      rw [lower_pattern, children, List.flatMap_cons, List.flatMap_singleton]
      exact .both _ (step child (text_mem_children kind child regex))
        (step regex (regex_mem_children kind child regex))
  | inList child items negated =>
      rw [lower_inList, children, List.flatMap_append, List.flatMap_singleton]
      apply Follows.bind (.each fun c mem => step c (mem_children_of_mem_inList mem))
      intro members
      apply Follows.bind_require
      exact .map _ (step child (mem_children_inList child items negated))
  | inSet child values type negated =>
      rw [lower_inSet, children, List.flatMap_singleton]
      apply Follows.bind_ofOption
      intro members _
      apply Follows.bind_require
      exact .map _ (step child (mem_children_inSet child values type negated))
  | cast child target =>
      rw [lower_cast, children]
      apply Follows.bind (step child (mem_children_cast child target))
      intro operand
      split
      · exact .pure operand
      · exact .ofOption _
  | aggregate agg =>
      rw [lower_aggregate]
      exact AggregateCall.lower_follows step
  | window win =>
      have parts : win.children.flatMap plan = win.func.children.flatMap plan ++
          (win.partitionBy.flatMap plan ++ win.orderBy.flatMap fun key => plan key.expr) := by
        rw [WindowCall.children, List.append_assoc, List.flatMap_append, List.flatMap_append,
          List.flatMap_map]
      rw [lower_window, children, parts]
      have function : Follows (win.func.lower ctx fun c _ => c.lower ctx)
          (win.func.children.flatMap plan) :=
        WindowFunction.lower_follows fun c mem => step c (WindowCall.mem_children_of_mem_func mem)
      exact .both _ function (WindowCall.overClause_follows step)

/-- A call with a date pattern keeps to the plan of its input and then notes its pattern. -/
theorem lower_format_follows {f : ScalarFunction}
    (kind : Rule.Kind.ofFunction f = .formatFunction) {args : List Expr}
    (step : ∀ c ∈ args, Follows (c.lower ctx) c.conversions) :
    Follows ((call f args).lower ctx) (call f args).conversions := by
  cases Rule.callCase f args with
  | format kind input format =>
      rw [lower_formatFunction ctx kind]
      apply Follows.bind_ofOption
      intro names known
      obtain ⟨name, mode⟩ := names
      apply Follows.bind_require
      apply Follows.bind_ofOption
      intro letters literal
      rw [conversions_of_format known input literal]
      -- The pattern is read and never lowered, so the input is the only operand with notes.
      exact .both _ (step input (.head _)) (.convert mode letters)
  | misfit h =>
      rw [lower_call_of_misfit ctx h]
      exact .untranslatable
  | composite other | variadic other | leaf other | scalar other | dateArithmetic other
  | textPredicate other =>
      rw [kind] at other
      cases other

/-- Every lowering keeps to the plan of its expression. -/
theorem lower_follows (ctx : Context) (e : Expr) : Follows (e.lower ctx) e.conversions := by
  induction e using lowering_induction with
  | step e operand expansion =>
      by_cases composite : e.kind = .compositeCall
      · cases e with
        | call f args =>
            rw [lower_compositeCall ctx composite]
            cases stands : Composite.expand f args with
            | done tree =>
                -- The tree is no operand of the call; the induction covers it on its own.
                rw [conversions_of_expansion (e := call f args) stands]
                exact expansion tree stands
            | untranslatable => exact .untranslatable
            | unknownWeekday name => exact .unknownWeekday name
        | _ => cases composite
      · by_cases format : e.kind = .formatFunction
        · cases e with
          | call f args => exact lower_format_follows format operand
          | _ => cases format
        · rw [conversions_of_operands composite format]
          exact lower_operands_follow composite format operand

/-- The notes of a lowering are complete, in order and not repeated: they are a beginning of the
conversions that the expression calls for, and all of them if there is a result. -/
theorem lowerRoot_notices (ctx : Context) (e : Expr) :
    (e.lowerRoot ctx).notices <+: e.conversions ∧
      ∀ f, (e.lowerRoot ctx).outcome = .done f → (e.lowerRoot ctx).notices = e.conversions := by
  have whole : Follows (e.lowerRoot ctx) e.conversions := by
    cases e with
    | «alias» child name =>
        have same : (Expr.alias child name).conversions = child.conversions := by
          rw [conversions_of_ne_call, children, List.flatMap_singleton]
          intro f args same
          cases same
        rw [same]
        exact .map _ (lower_follows ctx child)
    | _ => exact lower_follows ctx _
  exact ⟨whole.begins, whole.complete⟩

/-- A date stands three times in the tree for the next such weekday after it, so its notes are left
three times. -/
theorem conversions_nextDay (day : Calendar.Weekday) (date : Expr) :
    (Composite.nextDay day date).conversions =
      date.conversions ++ (date.conversions ++ date.conversions) := by
  have add : Rule.Kind.ofFunction .dateAdd = .dateArithmetic := rfl
  have diff : Rule.Kind.ofFunction .dateDiff = .scalarFunction := rfl
  have floor : Rule.Kind.ofFunction .floor = .scalarFunction := rfl
  simp [Composite.nextDay, Composite.daysIntoWeek, Composite.daysSince, Composite.weekNumber,
    Composite.floor, Composite.daysSinceEpoch, long, ofValue, conversions_of_ne_call,
    conversions_of_operands, kind, add, diff, floor, children]

/-- The date that a text column holds in some pattern. -/
def writtenDay (format : String) : Expr :=
  .call .strToDate [.column ⟨1, "day", none, .string⟩, .text format]

/-- Whether the Monday after a date is another date, the two read by different patterns. -/
def mondayAmongDays : Expr :=
  .inList (.call .nextDay [writtenDay "yyyy", .text "mon"]) [writtenDay "MM"] false

/-- The member leaves its note first, and the date whose Monday is looked for leaves three. -/
theorem lowerRoot_notices_of_monday_among_days :
    (∃ f, (mondayAmongDays.lowerRoot {}).outcome = .done f) ∧
      (mondayAmongDays.lowerRoot {}).notices = [⟨.symbol, "MM", "%m"⟩, ⟨.symbol, "yyyy", "%Y"⟩,
        ⟨.symbol, "yyyy", "%Y"⟩, ⟨.symbol, "yyyy", "%Y"⟩] := by
  have named : Composite.weekday (.text "mon") = .done .monday := by decide +kernel
  have month : Mode.convert .symbol "MM" = "%m" := by decide +kernel
  have year : Mode.convert .symbol "yyyy" = "%Y" := by decide +kernel
  have stands : (call .nextDay [writtenDay "yyyy", .text "mon"]).expansion =
      .done (Composite.nextDay .monday (writtenDay "yyyy")) := by
    rw [expansion, Composite.expand, named]
    rfl
  have written (format : String) :
      (writtenDay format).conversions = [Mode.notice .symbol format] := by
    rw [writtenDay, conversions_of_format rfl _ rfl, conversions_of_ne_call]
    · rfl
    · intro f args same
      cases same
  have plan : mondayAmongDays.conversions = [⟨.symbol, "MM", "%m"⟩, ⟨.symbol, "yyyy", "%Y"⟩,
      ⟨.symbol, "yyyy", "%Y"⟩, ⟨.symbol, "yyyy", "%Y"⟩] := by
    rw [mondayAmongDays, conversions_of_ne_call, children]
    · rw [List.flatMap_append, List.flatMap_singleton, List.flatMap_singleton,
        conversions_of_expansion stands, conversions_nextDay, written, written, Mode.notice,
        Mode.notice, month, year]
      rfl
    · intro f args same
      cases same
  have read (format : String) : (writtenDay format).IsLowered {} := by
    rw [IsLowered, writtenDay, lower_formatFunction _ rfl, lower_column]
    exact ⟨_, rfl⟩
  have next : (Composite.nextDay .monday (writtenDay "yyyy")).IsLowered {} := by
    have diff : Rule.Kind.ofFunction .dateDiff = .scalarFunction := rfl
    have floor : Rule.Kind.ofFunction .floor = .scalarFunction := rfl
    rw [IsLowered, Composite.nextDay, lower_dateArithmetic _ rfl]
    simp only [Composite.daysIntoWeek, Composite.daysSince, Composite.daysSinceEpoch,
      Composite.weekNumber, Composite.floor, long, ofValue, lower_binary, lower_cast, lower_literal,
      lower_scalarFunction _ floor, lower_scalarFunction _ diff, Lowering.each, writtenDay,
      lower_formatFunction _ (f := .strToDate) rfl, lower_column]
    exact ⟨_, rfl⟩
  have lowered : ∃ f, (mondayAmongDays.lowerRoot {}).outcome = .done f := by
    obtain ⟨member, first⟩ := read "MM"
    obtain ⟨monday, found⟩ := next
    have second : ((call .nextDay [writtenDay "yyyy", .text "mon"]).lower {}).outcome =
        .done monday := (lower_eq_done_of_composite rfl).mpr ⟨_, stands, found⟩
    rw [mondayAmongDays, lowerRoot, lower_inList]
    · simp only [Lowering.each, Lowering.outcome_bind, first, second]
      exact ⟨_, rfl⟩
    · intro child name same
      cases same
  obtain ⟨f, done⟩ := lowered
  obtain ⟨-, complete⟩ := lowerRoot_notices {} mondayAmongDays
  exact ⟨⟨f, done⟩, plan ▸ complete f done⟩

end Expr

end SqlLowering
