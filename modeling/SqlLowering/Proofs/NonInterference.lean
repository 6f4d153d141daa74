import SqlLowering.Proofs.Shape

/-!
# External text never shapes the SQL

Names, strings, bytes, dates and timestamps come from outside. Two expressions that differ in such
content only are lowered alike: both have a result, both have none, or both fail with the same
weekday. Two results agree in everything but the names inside quotes and the values sent beside the
text, so no raw text, no separator and no parenthesis depends on what came from outside.

Main statement: `Expr.lowerRoot_alike`. It relates two runs, so each way of building a fragment has
a lemma saying that it keeps two fragments alike, and each rule is followed on both sides at once.
-/

namespace SqlLowering

open Dialect Fragment

namespace Fragment

mutual

/-- The fragment without the names in quotes and the values bound. -/
def erase : Fragment → Fragment
  | .raw text => .raw text
  | .ident _ => .ident ""
  | .bound param => .bound ⟨.null, param.dataType⟩
  | .composite parts separator parens => .composite (eraseParts parts) separator parens

/-- Several fragments without their names and values. -/
def eraseParts : List Fragment → List Fragment
  | [] => []
  | part :: parts => part.erase :: eraseParts parts

end

/-- Two fragments that differ in names in quotes and in bound values only. -/
def Alike (f g : Fragment) : Prop :=
  f.erase = g.erase

namespace Alike

variable {f g f' g' : Fragment} {fs gs : List Fragment}

theorem refl (f : Fragment) : Alike f f := rfl

/-- Bound values of one type differ in what is sent beside the text only. -/
theorem bind (v w : Value) (type : DataType) :
    Alike (Fragment.bind v type) (Fragment.bind w type) := rfl

/-- Parts that are alike one by one are erased to the same parts. -/
private theorem eraseParts_eq (h : List.Forall₂ Alike fs gs) : eraseParts fs = eraseParts gs := by
  induction h with
  | nil => rfl
  | cons head tail ih => rw [eraseParts, eraseParts, head, ih]

/-- A composite is determined up to names and values by its parts. -/
theorem composite (h : List.Forall₂ Alike fs gs) (separator : String) (parens : Bool) :
    Alike (.composite fs separator parens) (.composite gs separator parens) := by
  rw [Alike, erase, erase, eraseParts_eq h]

/-- The separator is the same on both sides, so only the parts count. -/
theorem join (h : List.Forall₂ Alike fs gs) (separator : String) :
    Alike (Fragment.join fs separator) (Fragment.join gs separator) :=
  composite h separator false

theorem words (h : List.Forall₂ Alike fs gs) : Alike (Fragment.words fs) (Fragment.words gs) :=
  join h " "

theorem concat (first : Alike f g) (second : Alike f' g') (separator : String) :
    Alike (Fragment.concat f f' separator) (Fragment.concat g g' separator) :=
  join (.cons first (.cons second .nil)) separator

theorem parenthesize (h : Alike f g) : Alike (Fragment.parenthesize f) (Fragment.parenthesize g) :=
  composite (.cons h .nil) "" true

/-- A call is its name and its arguments in parentheses, so only the arguments count. -/
theorem func (name : String) (h : List.Forall₂ Alike fs gs) :
    Alike (Fragment.func name fs) (Fragment.func name gs) :=
  join (.cons (refl _) (.cons (composite h ", " true) .nil)) ""

/-- The name of an alias stands in quotes, so it may differ. -/
theorem aliased (h : Alike f g) (name name' : String) :
    Alike (f.aliased name) (g.aliased name') :=
  words (.cons h (.cons (refl _) (.cons rfl .nil)))

theorem forall₂_refl (fs : List Fragment) : List.Forall₂ Alike fs fs :=
  List.forall₂_same.mpr fun f _ => refl f

theorem option_refl (x : Option Fragment) : Option.Rel Alike x x := by
  cases x with
  | none => exact .none
  | some f => exact .some (refl f)

end Alike

end Fragment

namespace Literal

/-- Content decides neither whether a value can be written nor how. -/
theorem encode_rel {v w : Value} (h : v.Alike w) (type : DataType) :
    Option.Rel Alike (encode v type) (encode w type) := by
  cases h with
  | refl => exact Alike.option_refl _
  | string | binary | date | timestamp => exact .some (Alike.bind _ _ type)

/-- Whether a set can be written depends on each member alone, and content does not decide that. -/
theorem encodeAll_rel {vs ws : List Value} (h : List.Forall₂ Value.Alike vs ws) (type : DataType) :
    Option.Rel (List.Forall₂ Alike) (encodeAll vs type) (encodeAll ws type) := by
  induction h with
  | nil => exact .some .nil
  | @cons v w vs ws head tail ih =>
      have first := encode_rel head type
      simp only [encodeAll, List.mapM_cons] at ih ⊢
      generalize encode v type = x at first
      generalize encode w type = y at first
      generalize List.mapM (fun v => encode v type) vs = xs at ih
      generalize List.mapM (fun v => encode v type) ws = ys at ih
      cases first with
      | none => exact .none
      | some first =>
          cases ih with
          | none => exact .none
          | some rest => exact .some (.cons first rest)

end Literal

namespace Conversion

/-- A conversion looks at types only. -/
theorem convert?_rel {f g : Fragment} (h : Alike f g) (source target : DataType) :
    Option.Rel Alike (convert? f source target) (convert? g source target) := by
  have castAs {f g : Fragment} (h : Alike f g) (type : Fragment) :
      Alike (castAs f type) (castAs g type) :=
    .join (.cons (.refl _) (.cons h (Alike.forall₂_refl _))) ""
  have spelled : Alike (Rule.ifElse f (bindText "true") (bindText "false"))
      (Rule.ifElse g (bindText "true") (bindText "false")) :=
    .func "IF" (.cons h (Alike.forall₂_refl _))
  have truncated : Alike (truncated f) (truncated g) :=
    .func "TRUNCATE" (.cons h (Alike.forall₂_refl _))
  have compared : Alike (parenthesize (words [f, .raw "!=", .int 0]))
      (parenthesize (words [g, .raw "!=", .int 0])) :=
    .parenthesize (.words (.cons h (Alike.forall₂_refl _)))
  cases target with
  | string =>
      rw [convert?, convert?]
      split
      · exact .some spelled
      · split
        · exact .none
        · exact .some (castAs h _)
  | byte | short | integer | long =>
      rw [convert?, convert?]
      split
      · exact .some (castAs truncated _)
      · split
        · exact .some (castAs h _)
        · exact .none
  | float | double | decimal precision scale | date | timestamp =>
      rw [convert?, convert?]
      split
      · exact .some (castAs h _)
      · exact .none
  | boolean =>
      rw [convert?, convert?]
      split
      · exact .some compared
      · exact .none
  | null | binary | interval => exact .none

end Conversion

section Calls

variable {corr : ColumnRef → ColumnRef → Prop} {ctx ctx' : Context}

/-- The features of the target depend on its version, not on the names of columns. -/
theorem Dialect.Context.supports_eq (version : ctx.version = ctx'.version) (feature : Feature) :
    ctx.supports feature = ctx'.supports feature := by
  rw [Context.supports, Context.supports, version]

namespace AggregateCall.Rel

variable {R : Expr → Expr → Prop} {call call' : AggregateCall Expr}

/-- A filter is there on both sides or on neither. -/
theorem restrict {f g : Option Fragment} {a b : Fragment} (filters : Option.Rel Alike f g)
    (arguments : Alike a b) : Alike (AggregateCall.restrict f a) (AggregateCall.restrict g b) := by
  cases filters with
  | none => exact arguments
  | some conditions => exact .func "IF" (.cons conditions (.cons arguments (Alike.forall₂_refl _)))

/-- A count of rows has an argument of its own only if there is a filter. -/
theorem rowArguments {f g : Option Fragment} (filters : Option.Rel Alike f g) :
    List.Forall₂ Alike (AggregateCall.rowArguments f) (AggregateCall.rowArguments g) := by
  cases filters with
  | none => exact Alike.forall₂_refl _
  | some conditions => exact .cons (restrict (.some conditions) (.refl _)) .nil

/-- The name of an aggregate and its `DISTINCT` do not depend on the arguments. -/
theorem write (func : AggregateFunction) (distinct : Bool) {fs gs : List Fragment}
    (arguments : List.Forall₂ Alike fs gs) :
    Alike (AggregateCall.write func distinct fs) (AggregateCall.write func distinct gs) := by
  cases distinct with
  | false => exact .func _ arguments
  | true => exact .concat (.refl _) (.parenthesize (.concat (.refl _) (.join arguments _) _)) _

/-- Aggregates over operands that are lowered alike are lowered alike. -/
theorem lower (version : ctx.version = ctx'.version) (calls : AggregateCall.Rel R call call')
    {visit : (c : Expr) → c ∈ call.children → Lowering Fragment}
    {visit' : (c : Expr) → c ∈ call'.children → Lowering Fragment}
    (step : ∀ c mem c' mem', R c c' → Lowering.Rel Alike (visit c mem) (visit' c' mem')) :
    Lowering.Rel Alike (call.lower ctx visit) (call'.lower ctx' visit') := by
  have wellFormed := calls.isWellFormed_eq
  have available (func : AggregateFunction) : isAvailable ctx func = isAvailable ctx' func := by
    cases func <;> simp only [isAvailable, Context.supports_eq version]
  cases calls with
  | @mk func distinct args args' filter filter' arguments filters =>
      rw [AggregateCall.lower, AggregateCall.lower, available, wellFormed]
      refine .bind_require _ (.bind_require _ ?_)
      refine .bind (.optional filters fun c _ c' _ => step c _ c' _) fun f g conditions => ?_
      cases arguments with
      | nil => exact .pure (write func distinct (rowArguments conditions))
      | cons first rest =>
          refine .bind (.each (.cons first rest) fun c _ c' _ => step c _ c' _)
            fun fs gs results => ?_
          refine .pure (write func distinct ?_)
          rw [List.forall₂_map_left_iff, List.forall₂_map_right_iff]
          exact results.imp fun a b => restrict conditions

end AggregateCall.Rel

namespace WindowFunction.Rel

variable {R : Expr → Expr → Prop} {func func' : WindowFunction Expr}

/-- The offset is the same on both sides, and a default is there on both or on neither. -/
private theorem shift (name : String) (offset : Int64) {input input' : Lowering Fragment}
    {default default' : Lowering (Option Fragment)} (inputs : Lowering.Rel Alike input input')
    (defaults : Lowering.Rel (Option.Rel Alike) default default') :
    Lowering.Rel Alike (WindowFunction.shift name offset input default)
      (WindowFunction.shift name offset input' default') := by
  rw [WindowFunction.shift, WindowFunction.shift]
  refine .bind_require _ (.bind inputs fun a b first => .bind defaults fun x y second => ?_)
  refine .pure (.func name (.cons first (.cons (.refl _) ?_)))
  cases second with
  | none => exact .nil
  | some related => exact .cons related .nil

/-- Window functions over operands that are lowered alike are lowered alike. -/
theorem lower (version : ctx.version = ctx'.version) (functions : WindowFunction.Rel R func func')
    {visit : (c : Expr) → c ∈ func.children → Lowering Fragment}
    {visit' : (c : Expr) → c ∈ func'.children → Lowering Fragment}
    (step : ∀ c mem c' mem', R c c' → Lowering.Rel Alike (visit c mem) (visit' c' mem')) :
    Lowering.Rel Alike (func.lower ctx visit) (func'.lower ctx' visit') := by
  -- Functions of one operand only put their name around it.
  have around (name : String) (more : List Fragment) {x y : Lowering Fragment}
      (h : Lowering.Rel Alike x y) :
      Lowering.Rel Alike (x >>= fun f => pure (Fragment.func name (f :: more)))
        (y >>= fun f => pure (Fragment.func name (f :: more))) :=
    .bind h fun f g related => .pure (.func name (.cons related (Alike.forall₂_refl _)))
  cases functions with
  | aggregate calls =>
      have same := calls.distinct_eq
      rw [WindowFunction.lower, WindowFunction.lower, same]
      exact .bind_require _ (calls.lower version step)
  | rowNumber | rank | denseRank | percentRank | cumeDist => exact .pure (.refl _)
  | ntile buckets => exact around "NTILE" [] (step _ _ _ _ buckets)
  | lag inputs defaults =>
      exact shift "LAG" _ (step _ _ _ _ inputs) (.optional defaults fun c _ c' _ => step c _ c' _)
  | lead inputs defaults =>
      exact shift "LEAD" _ (step _ _ _ _ inputs) (.optional defaults fun c _ c' _ => step c _ c' _)
  | firstValue inputs => exact around "FIRST_VALUE" [] (step _ _ _ _ inputs)
  | lastValue inputs => exact around "LAST_VALUE" [] (step _ _ _ _ inputs)
  | @nthValue _ _ n inputs =>
      exact .bind_require _ (around "NTH_VALUE" [.int n.toInt] (step _ _ _ _ inputs))

end WindowFunction.Rel

namespace WindowCall.Rel

variable {R : Expr → Expr → Prop} {call call' : WindowCall Expr}

/-- A clause is left out on both sides or on neither. -/
private theorem keyClause (announce : String) {fs gs : List Fragment}
    (keys : List.Forall₂ Alike fs gs) :
    List.Forall₂ Alike (WindowCall.keyClause announce fs) (WindowCall.keyClause announce gs) := by
  cases keys with
  | nil => exact .nil
  | cons first rest => exact .cons (.concat (.refl _) (.join (.cons first rest) _) _) .nil

/-- Windows over operands that are lowered alike are lowered alike. -/
theorem overClause (calls : WindowCall.Rel R call call')
    {visit : (c : Expr) → c ∈ call.children → Lowering Fragment}
    {visit' : (c : Expr) → c ∈ call'.children → Lowering Fragment}
    (step : ∀ c mem c' mem', R c c' → Lowering.Rel Alike (visit c mem) (visit' c' mem')) :
    Lowering.Rel Alike (call.overClause visit) (call'.overClause visit') := by
  obtain ⟨functions, partitions, orders⟩ := calls
  rw [WindowCall.overClause, WindowCall.overClause]
  refine .bind (.each partitions fun c _ c' _ => step c _ c' _) fun fs gs keys => ?_
  refine .bind (.each (S := Alike) orders fun key mem key' mem' sorted => ?_)
    fun fs' gs' keys' => ?_
  · cases sorted with
    | mk related =>
        refine .bind_require _ (.bind (step _ _ _ _ related) fun f g expressions => ?_)
        exact .pure (.concat expressions (.refl _) _)
  · exact .pure (.parenthesize (.words (List.rel_append (List.rel_append (keyClause _ keys)
      (keyClause _ keys')) (Alike.forall₂_refl _))))

end WindowCall.Rel

end Calls

namespace Expr

variable {corr : ColumnRef → ColumnRef → Prop} {ctx ctx' : Context}

/-- A test puts the two texts in fixed places. -/
private theorem textTest?_alike {f : ScalarFunction}
    {test : Fragment → Fragment → List Fragment} (h : Rule.textTest? f = some test)
    {a a' b b' : Fragment} (texts : a.Alike a') (parts : b.Alike b') :
    List.Forall₂ Fragment.Alike (test a b) (test a' b') := by
  have length : (Fragment.func "CHAR_LENGTH" [b]).Alike (Fragment.func "CHAR_LENGTH" [b']) :=
    .func _ (.cons parts .nil)
  cases f with
  | contains =>
      cases h
      exact .cons (.func _ (.cons parts (.cons texts .nil))) (Alike.forall₂_refl _)
  | startsWith | endsWith =>
      cases h
      exact .cons (.func _ (.cons texts (.cons length .nil))) (.cons (.refl _) (.cons parts .nil))
  | _ => cases h

/-- A requirement that there are members is met on both sides or on neither. -/
private theorem isEmpty_eq {α β : Type} {R : α → β → Prop} {xs : List α} {ys : List β}
    (h : List.Forall₂ R xs ys) : xs.isEmpty = ys.isEmpty := by
  cases h <;> rfl

/-- A branch is its condition and its result, lowered one after the other. -/
private theorem lower_branch_alike {b b' : Expr × Expr}
    (condition : ∀ {c}, Alike corr b.1 c →
      Lowering.Rel Fragment.Alike (b.1.lower ctx) (c.lower ctx'))
    (result : ∀ {c}, Alike corr b.2 c →
      Lowering.Rel Fragment.Alike (b.2.lower ctx) (c.lower ctx'))
    (h : BranchRel (Alike corr) b b') :
    Lowering.Rel (List.Forall₂ Fragment.Alike)
      (do
        let condition ← b.1.lower ctx
        let result ← b.2.lower ctx
        pure (Rule.branchWords condition result))
      (do
        let condition ← b'.1.lower ctx'
        let result ← b'.2.lower ctx'
        pure (Rule.branchWords condition result)) := by
  cases h with
  | mk conditions results =>
      refine .bind (condition conditions) fun f g first => ?_
      refine .bind (result results) fun f' g' second => ?_
      exact .pure (.cons (.refl _) (.cons first (.cons (.refl _) (.cons second .nil))))

/-- The words between the branches are fixed, and a default is there on both sides or on neither. -/
private theorem caseWhen_alike {fs gs : List (List Fragment)} {x y : Option Fragment}
    (branches : List.Forall₂ (List.Forall₂ Fragment.Alike) fs gs)
    (otherwises : Option.Rel Fragment.Alike x y) :
    Fragment.Alike (Rule.caseWhen fs x) (Rule.caseWhen gs y) := by
  have last := Alike.forall₂_refl [Fragment.raw "END"]
  have written := List.rel_append (Alike.forall₂_refl [Fragment.raw "CASE"])
    (List.rel_flatten branches)
  cases otherwises with
  | none => exact .words (List.rel_append (List.rel_append written .nil) last)
  | some related =>
      exact .words (List.rel_append (List.rel_append written
        (.cons (.refl _) (.cons related .nil))) last)

/-- The words of a match depend on its kind only. -/
private theorem matchWords_alike (kind : MatchKind) {a a' b b' : Fragment} (texts : a.Alike a')
    (patterns : b.Alike b') :
    List.Forall₂ Fragment.Alike (Rule.matchWords kind a b) (Rule.matchWords kind a' b') := by
  cases kind with
  | like escape =>
      exact .cons texts (.cons (.refl _) (.cons patterns (Alike.forall₂_refl _)))
  | regex => exact .cons texts (.cons (.refl _) (.cons patterns .nil))
  | regexFromStart =>
      exact .cons texts (.cons (.refl _) (.cons (.func _ (.cons (.refl _)
        (.cons patterns .nil))) .nil))

/-- A test for membership depends on its members only by how many there are. -/
private theorem memberTest_alike {a b : Fragment} {fs gs : List Fragment} (values : a.Alike b)
    (members : List.Forall₂ Fragment.Alike fs gs) (negated : Bool) :
    Fragment.Alike (Rule.memberTest a fs negated) (Rule.memberTest b gs negated) :=
  .parenthesize (.words (.cons values (.cons (.refl _)
    (.cons (.parenthesize (.join members _)) .nil))))

/-- A call is lowered alike if its arguments are and the tree it stands for is. -/
private theorem lower_call_alike (version : ctx.version = ctx'.version) {f : ScalarFunction}
    {args args' : List Expr} (arguments : List.Forall₂ (Alike corr) args args')
    (weekdays : weekdayArgument? f args = weekdayArgument? f args')
    (operand : ∀ c ∈ args, ∀ c', Alike corr c c' →
      Lowering.Rel Fragment.Alike (c.lower ctx) (c'.lower ctx'))
    (expansion : ∀ tree, Composite.expand f args = .done tree → ∀ tree', Alike corr tree tree' →
      Lowering.Rel Fragment.Alike (tree.lower ctx) (tree'.lower ctx')) :
    Lowering.Rel Fragment.Alike ((call f args).lower ctx) ((call f args').lower ctx') := by
  have length : args.length = args'.length := arguments.length_eq
  have all : Lowering.Rel (List.Forall₂ Fragment.Alike)
      (Lowering.each args fun c _ => c.lower ctx) (Lowering.each args' fun c _ => c.lower ctx') :=
    .each arguments fun c mem c' _ related => operand c mem c' related
  cases Rule.callCase f args with
  | composite kind =>
      have trees := Alike.expand_rel arguments weekdays
      rw [lower_compositeCall ctx kind, lower_compositeCall ctx' kind]
      generalize expanded : Composite.expand f args = x at trees
      generalize Composite.expand f args' = y at trees
      cases trees with
      | done related => exact expansion _ expanded _ related
      | untranslatable => exact .untranslatable
      | unknownWeekday name => exact Outcome.Rel.unknownWeekday name
  | variadic kind =>
      rw [lower_variadicFunction ctx kind, lower_variadicFunction ctx' kind, length]
      refine .bind_ofOption _ fun name _ => .bind_require _ ?_
      exact .bind all fun fs gs results => .pure (.func name results)
  | leaf kind =>
      have same : Rule.leafCall? ctx f = Rule.leafCall? ctx' f := by
        cases f <;> simp only [Rule.leafCall?, Context.supports_eq version]
      cases arguments
      rw [lower_leafFunction ctx kind, lower_leafFunction ctx' kind, same]
      exact .ofOption (Alike.option_refl _)
  | scalar kind =>
      rw [lower_scalarFunction ctx kind, lower_scalarFunction ctx' kind, length,
        Alike.roundsApproximate_eq arguments]
      refine .bind_ofOption _ fun name _ => .bind_require _ (.bind_require _ ?_)
      exact .bind all fun fs gs results => .pure (.func name results)
  | dateArithmetic kind date amount =>
      obtain ⟨⟩ | ⟨dates, ⟨⟩ | ⟨amounts, ⟨⟩⟩⟩ := arguments
      rw [lower_dateArithmetic ctx kind, lower_dateArithmetic ctx' kind]
      refine .bind_ofOption _ fun names _ => ?_
      refine .bind (operand _ (.head _) _ dates) fun a b start => ?_
      refine .bind (operand _ (.tail _ (.head _)) _ amounts) fun c d distance => ?_
      exact .pure (.func _ (.cons start (.cons (.words (.cons (.refl _) (.cons distance
        (Alike.forall₂_refl _)))) .nil)))
  | format kind input pattern =>
      obtain ⟨⟩ | ⟨inputs, ⟨⟩ | ⟨patterns, ⟨⟩⟩⟩ := arguments
      rw [lower_formatFunction ctx kind, lower_formatFunction ctx' kind,
        Context.supports_eq version]
      refine .bind_ofOption _ fun names _ => .bind_require _ ?_
      refine .bind (.ofOption patterns.stringLiteral?_rel) fun s t _ => ?_
      refine .bind (operand _ (.head _) _ inputs) fun a b formatted => ?_
      exact .pure (.func _ (.cons formatted (.cons (.bind _ _ _) .nil)))
  | textPredicate kind text part =>
      obtain ⟨⟩ | ⟨texts, ⟨⟩ | ⟨parts, ⟨⟩⟩⟩ := arguments
      rw [lower_textPredicate ctx kind, lower_textPredicate ctx' kind]
      refine .bind_ofOption _ fun test listed => ?_
      refine .bind (operand _ (.head _) _ texts) fun a b whole => ?_
      refine .bind (operand _ (.tail _ (.head _)) _ parts) fun c d sought => ?_
      exact .pure (.parenthesize (.words (textTest?_alike listed whole sought)))
  | misfit h =>
      rw [lower_call_of_misfit ctx h, lower_call_of_misfit ctx' (length ▸ h)]
      exact .untranslatable

/-- Expressions of one shape are lowered alike, at any depth. -/
theorem lower_alike (version : ctx.version = ctx'.version)
    (resolvers : ∀ c d, corr c d → Option.Rel Fragment.Alike (ctx.resolver c) (ctx'.resolver d))
    {e e' : Expr} (alike : Alike corr e e') :
    Lowering.Rel Fragment.Alike (e.lower ctx) (e'.lower ctx') := by
  induction e using lowering_induction generalizing e' with
  | step e operand expansion =>
      cases alike with
      | literal values =>
          rw [lower_literal, lower_literal]
          exact .ofOption (Literal.encode_rel values _)
      | column types qualifiers columns =>
          rw [lower_column, lower_column]
          exact .ofOption (resolvers _ _ columns)
      | renamed name name' child =>
          rw [lower_alias, lower_alias]
          exact operand _ (mem_children_alias _ _) child
      | @unary op a b child =>
          rw [lower_unary, lower_unary]
          refine .bind (operand _ (mem_children_unary _ _) child) fun f g related => .pure ?_
          cases op with
          | not | negate | bitNot => exact .concat (.refl _) (.parenthesize related) _
          | isNull | isNotNull => exact .parenthesize (.concat related (.refl _) _)
      | binary lefts rights =>
          rw [lower_binary, lower_binary]
          refine .bind (operand _ (left_mem_children _ _ _) lefts) fun a b before => ?_
          refine .bind (operand _ (right_mem_children _ _ _) rights) fun c d after => ?_
          exact .pure (.parenthesize (.words (.cons before (.cons (.refl _) (.cons after .nil)))))
      | call arguments weekdays =>
          exact lower_call_alike version arguments weekdays
            (fun c mem c' related => operand c mem related)
            fun tree expanded tree' related => expansion tree expanded related
      | conditional predicates consequents otherwises =>
          rw [lower_conditional, lower_conditional]
          refine .bind (operand _ (predicate_mem_children _ _ _) predicates) fun a b first => ?_
          refine .bind (operand _ (consequent_mem_children _ _ _) consequents)
            fun c d second => ?_
          refine .bind (operand _ (otherwise_mem_children _ _ _) otherwises) fun f g third => ?_
          exact .pure (.func "IF" (.cons first (.cons second (.cons third .nil))))
      | case branches otherwises =>
          rw [lower_case, lower_case, isEmpty_eq branches]
          refine .bind_require _ (.bind (.each branches fun b mem b' _ related =>
            lower_branch_alike (operand _ (condition_mem_children mem))
              (operand _ (result_mem_children mem)) related) fun fs gs written => ?_)
          refine .bind (.optional otherwises fun c there c' _ related =>
            operand c (mem_children_of_case_otherwise there) related) fun x y last => ?_
          exact .pure (caseWhen_alike written last)
      | pattern children regexes =>
          rw [lower_pattern, lower_pattern]
          refine .bind (operand _ (text_mem_children _ _ _) children) fun a b texts => ?_
          refine .bind (operand _ (regex_mem_children _ _ _) regexes) fun c d patterns => ?_
          exact .pure (.parenthesize (.words (matchWords_alike _ texts patterns)))
      | inList child members =>
          rw [lower_inList, lower_inList]
          refine .bind (.each members fun c mem c' _ related =>
            operand c (mem_children_of_mem_inList mem) related) fun fs gs items => ?_
          rw [isEmpty_eq items]
          have values := operand _ (mem_children_inList _ _ _) child
          refine .bind_require _ (.bind values fun a b value => ?_)
          exact .pure (memberTest_alike value items _)
      | inSet child members =>
          rw [lower_inSet, lower_inSet]
          refine .bind (.ofOption (Literal.encodeAll_rel members _)) fun fs gs items => ?_
          rw [isEmpty_eq items]
          have values := operand _ (mem_children_inSet _ _ _ _) child
          refine .bind_require _ (.bind values fun a b value => ?_)
          exact .pure (memberTest_alike value items _)
      | cast child =>
          rw [lower_cast, lower_cast, child.dataType_eq]
          refine .bind (operand _ (mem_children_cast _ _) child) fun f g related => ?_
          split
          · exact .pure related
          · exact .ofOption (Conversion.convert?_rel related _ _)
      | aggregate calls =>
          rw [lower_aggregate, lower_aggregate]
          exact calls.lower version fun c mem c' _ related => operand c mem related
      | window calls =>
          rw [lower_window, lower_window]
          refine .bind (calls.functions.lower version fun c mem c' _ related =>
            operand c (WindowCall.mem_children_of_mem_func mem) related) fun a b function => ?_
          refine .bind (calls.overClause fun c mem c' _ related => operand c mem related)
            fun c d clause => ?_
          exact .pure (.words (.cons function (.cons (.refl _) (.cons clause .nil))))

/-- Lowering a root does not let content from outside shape the SQL. Both sides have a result, or
neither has one, or both fail with the same weekday; and two results agree once the names in quotes
and the bound values are erased. The resolvers need to agree, up to names and values, only on
columns that stand at the same place. -/
theorem lowerRoot_alike (version : ctx.version = ctx'.version)
    (resolvers : ∀ c d, corr c d →
      Option.Rel (fun f g => f.erase = g.erase) (ctx.resolver c) (ctx'.resolver d))
    {e e' : Expr} (alike : Alike corr e e') :
    Outcome.Rel (fun f g => f.erase = g.erase) (e.lowerRoot ctx).outcome
      (e'.lowerRoot ctx').outcome := by
  have whole := lower_alike version resolvers alike
  cases alike with
  | renamed name name' child =>
      have inner := lower_alike version resolvers child
      exact Lowering.Rel.bind inner fun f g related => .pure (related.aliased name name')
  | _ => exact whole

/-- Columns under their own names are written alike if both have a qualifier or neither has. -/
private theorem quotedColumns_alike (c d : ColumnRef)
    (h : c.qualifier.isSome = d.qualifier.isSome) :
    Option.Rel (fun f g => f.erase = g.erase) (quotedColumns c) (quotedColumns d) := by
  obtain ⟨id, name, qualifier, type⟩ := c
  obtain ⟨id', name', qualifier', type'⟩ := d
  cases qualifier <;> cases qualifier' <;> first | exact .some rfl | cases h

/-- A name that closes its quote, a text that closes a string and a date pattern, beside harmless
ones. -/
theorem lowerRoot_alike_of_hostile_content :
    Outcome.Rel (fun f g => f.erase = g.erase)
      ((Expr.alias (.binary .and
        (.inSet (.column ⟨1, "name", some "t", .string⟩) [.string "x", .null] .string false)
        (.call .dateFormat [.call .nextDay [.column ⟨2, "due", none, .date⟩, .text "MO"],
          .text "yyyy"])) "total").lowerRoot {}).outcome
      ((Expr.alias (.binary .and
        (.inSet (.column ⟨7, "\x60; DROP", some "?", .string⟩) [.string "'; --", .null] .string
          false)
        (.call .dateFormat [.call .nextDay [.column ⟨8, "", none, .date⟩, .text "MO"],
          .text "' OR 1=1 #"])) "\x60\x60").lowerRoot {}).outcome :=
  lowerRoot_alike rfl quotedColumns_alike
    (.renamed _ _ (.binary
      (.inSet (.column rfl rfl rfl) (.cons (.string _ _) (.cons (.refl _) .nil)))
      (.call (.cons (.call (.cons (.column rfl rfl rfl) (.cons (.literal (.refl _)) .nil)) rfl)
        (.cons (.literal (.string _ _)) .nil)) rfl)))

end Expr

end SqlLowering
