import SqlLowering.Proofs.Shape

/-!
# Nodes with other operands

Two nodes that differ in their operands only, and the node that comes from another one by changing
its operands. A statement about expressions that passes from operands to nodes is proved with
`Expr.NodeRel`, one constructor for each kind of node. A function on expressions that works from the
leaves upward is defined with `Expr.mapOperands`.

A node sees the type of its operands and the content of those that are string literals, and it is a
string literal only if it has none. So nodes over operands of the same types have the same type,
nodes over the same string literals name the same weekday, and two nodes that differ in their
operands only are the same string literal or none.
-/

namespace SqlLowering

section Relations

variable {ε δ : Type} {R : ε → δ → Prop}

theorem option_rel_refl {S : ε → ε → Prop} [Std.Refl S] (x : Option ε) : Option.Rel S x x := by
  cases x with
  | none => exact .none
  | some a => exact .some (refl a)

/-- What an optional operand is changed into is related to it if each change is. -/
theorem option_rel_pmap {p : ε → Prop} {g : (a : ε) → p a → δ} (step : ∀ a h, R a (g a h))
    (x : Option ε) (mem : ∀ a, x = some a → p a) : Option.Rel R x (x.pmap g mem) := by
  cases x with
  | none => exact .none
  | some a => exact .some (step a _)

/-- What the members of a list are changed into is related to them if each change is. -/
theorem forall₂_pmap {p : ε → Prop} {g : (a : ε) → p a → δ} (step : ∀ a h, R a (g a h))
    (xs : List ε) (mem : ∀ a ∈ xs, p a) : List.Forall₂ R xs (xs.pmap g mem) := by
  induction xs with
  | nil => exact .nil
  | cons a as ih => exact .cons (step a _) (ih fun b h => mem b (List.mem_cons_of_mem a h))

/-- Related optional operands make related lists. -/
theorem forall₂_toList {x : Option ε} {y : Option δ} (operands : Option.Rel R x y) :
    List.Forall₂ R x.toList y.toList := by
  cases operands with
  | none => exact .nil
  | some related => exact .cons related .nil

end Relations

/-! ## Changing the operands of a node -/

section Maps

variable {ε δ : Type}

/-- The aggregate with its operands changed. -/
def AggregateCall.mapOperands (call : AggregateCall ε) (g : (c : ε) → c ∈ call.children → δ) :
    AggregateCall δ where
  func := call.func
  args := call.args.pmap g fun _ h => mem_children_of_mem_args h
  distinct := call.distinct
  filter := call.filter.pmap g fun _ h => mem_children_of_filter h

/-- Nothing changes if no operand does. -/
theorem AggregateCall.mapOperands_self (call : AggregateCall ε) :
    (call.mapOperands fun c _ => c) = call := by
  simp [mapOperands]

/-- The window function with its operands changed. -/
def WindowFunction.mapOperands : (f : WindowFunction ε) → ((c : ε) → c ∈ f.children → δ) →
    WindowFunction δ
  | .aggregate call, g => .aggregate (call.mapOperands g)
  | .rowNumber, _ => .rowNumber
  | .rank, _ => .rank
  | .denseRank, _ => .denseRank
  | .percentRank, _ => .percentRank
  | .cumeDist, _ => .cumeDist
  | .ntile buckets, g => .ntile (g buckets (mem_children_ntile buckets))
  | .lag input offset default, g =>
    .lag (g input (mem_children_lag input offset default)) offset
      (default.pmap g fun _ h => mem_children_of_lag_default h)
  | .lead input offset default, g =>
    .lead (g input (mem_children_lead input offset default)) offset
      (default.pmap g fun _ h => mem_children_of_lead_default h)
  | .firstValue input, g => .firstValue (g input (mem_children_firstValue input))
  | .lastValue input, g => .lastValue (g input (mem_children_lastValue input))
  | .nthValue input n, g => .nthValue (g input (mem_children_nthValue input n)) n

theorem WindowFunction.mapOperands_self (f : WindowFunction ε) :
    (f.mapOperands fun c _ => c) = f := by
  cases f with
  | aggregate call => exact congrArg WindowFunction.aggregate call.mapOperands_self
  | _ => simp [mapOperands]

/-- The window call with its operands changed. -/
def WindowCall.mapOperands (call : WindowCall ε) (g : (c : ε) → c ∈ call.children → δ) :
    WindowCall δ where
  func := call.func.mapOperands fun c h => g c (mem_children_of_mem_func h)
  partitionBy := call.partitionBy.pmap g fun _ h => mem_children_of_mem_partitionBy h
  orderBy := call.orderBy.pmap
    (fun key (h : key.expr ∈ call.children) => ⟨g key.expr h, key.direction, key.nulls⟩)
    fun _ h => mem_children_of_mem_orderBy h
  frame := call.frame

theorem WindowCall.mapOperands_self (call : WindowCall ε) :
    (call.mapOperands fun c _ => c) = call := by
  simp [mapOperands, WindowFunction.mapOperands_self]

end Maps

namespace Expr

/-- The node with its operands changed; the change may depend on where the operand comes from. -/
def mapOperands : (e : Expr) → ((c : Expr) → c ∈ e.children → Expr) → Expr
  | .literal value type, _ => .literal value type
  | .column ref, _ => .column ref
  | .alias child name, g => .alias (g child (mem_children_alias child name)) name
  | .unary op child, g => .unary op (g child (mem_children_unary op child))
  | .binary op left right, g =>
    .binary op (g left (left_mem_children op left right))
      (g right (right_mem_children op left right))
  | .call f args, g => .call f (args.pmap g fun _ h => h)
  | .conditional predicate consequent otherwise, g =>
    .conditional (g predicate (predicate_mem_children predicate consequent otherwise))
      (g consequent (consequent_mem_children predicate consequent otherwise))
      (g otherwise (otherwise_mem_children predicate consequent otherwise))
  | .case branches otherwise, g =>
    .case
      (branches.pmap (fun b (h : b.1 ∈ (case branches otherwise).children ∧
          b.2 ∈ (case branches otherwise).children) => (g b.1 h.1, g b.2 h.2))
        fun _ h => ⟨condition_mem_children h, result_mem_children h⟩)
      (otherwise.pmap g fun _ h => mem_children_of_case_otherwise h)
  | .pattern kind child regex, g =>
    .pattern kind (g child (text_mem_children kind child regex))
      (g regex (regex_mem_children kind child regex))
  | .inList child items negated, g =>
    .inList (g child (mem_children_inList child items negated))
      (items.pmap g fun _ h => mem_children_of_mem_inList h) negated
  | .inSet child values type negated, g =>
    .inSet (g child (mem_children_inSet child values type negated)) values type negated
  | .cast child target, g => .cast (g child (mem_children_cast child target)) target
  | .aggregate agg, g => .aggregate (agg.mapOperands g)
  | .window win, g => .window (win.mapOperands g)

/-- A node whose operands stay stays itself. -/
theorem mapOperands_self (e : Expr) : (e.mapOperands fun c _ => c) = e := by
  cases e with
  | call f args =>
      have same : (args.pmap (fun c _ => c) fun _ (mem : _ ∈ args) => mem) = args := by simp
      exact congrArg (Expr.call f) same
  | aggregate agg => exact congrArg Expr.aggregate agg.mapOperands_self
  | window win => exact congrArg Expr.window win.mapOperands_self
  | _ => simp [mapOperands]

/-- Two nodes that differ in their operands only, which are related by `R`. -/
inductive NodeRel (R : Expr → Expr → Prop) : Expr → Expr → Prop
  | literal (value : Value) (type : DataType) :
      NodeRel R (.literal value type) (.literal value type)
  | column (ref : ColumnRef) : NodeRel R (.column ref) (.column ref)
  | named {a b : Expr} (name : String) (children : R a b) :
      NodeRel R (.alias a name) (.alias b name)
  | unary {a b : Expr} (op : UnaryOp) (children : R a b) : NodeRel R (.unary op a) (.unary op b)
  | binary {a a' b b' : Expr} (op : BinaryOp) (lefts : R a a') (rights : R b b') :
      NodeRel R (.binary op a b) (.binary op a' b')
  | call {args args' : List Expr} (f : ScalarFunction) (arguments : List.Forall₂ R args args') :
      NodeRel R (.call f args) (.call f args')
  | conditional {a a' b b' c c' : Expr} (predicates : R a a') (consequents : R b b')
      (otherwises : R c c') : NodeRel R (.conditional a b c) (.conditional a' b' c')
  | case {bs bs' : List (Expr × Expr)} {otherwise otherwise' : Option Expr}
      (branches : List.Forall₂ (BranchRel R) bs bs')
      (otherwises : Option.Rel R otherwise otherwise') :
      NodeRel R (.case bs otherwise) (.case bs' otherwise')
  | pattern {a a' b b' : Expr} (kind : MatchKind) (children : R a a') (regexes : R b b') :
      NodeRel R (.pattern kind a b) (.pattern kind a' b')
  | inList {child child' : Expr} {items items' : List Expr} (negated : Bool)
      (children : R child child') (members : List.Forall₂ R items items') :
      NodeRel R (.inList child items negated) (.inList child' items' negated)
  | inSet {child child' : Expr} (values : List Value) (type : DataType) (negated : Bool)
      (children : R child child') :
      NodeRel R (.inSet child values type negated) (.inSet child' values type negated)
  | cast {a b : Expr} (target : DataType) (children : R a b) :
      NodeRel R (.cast a target) (.cast b target)
  | aggregate {call call' : AggregateCall Expr} (calls : AggregateCall.Rel R call call') :
      NodeRel R (.aggregate call) (.aggregate call')
  | window {call call' : WindowCall Expr} (calls : WindowCall.Rel R call call') :
      NodeRel R (.window call) (.window call')

end Expr

section NodeRel

variable {R : Expr → Expr → Prop}

/-- The changed aggregate differs in its operands only, as each of them is changed where it stands.
-/
theorem AggregateCall.rel_mapOperands (call : AggregateCall Expr)
    {g : (c : Expr) → c ∈ call.children → Expr} (step : ∀ c h, R c (g c h)) :
    AggregateCall.Rel R call (call.mapOperands g) :=
  ⟨forall₂_pmap step call.args _, option_rel_pmap step call.filter _⟩

/-- The same for a window function, by its constructors. -/
theorem WindowFunction.rel_mapOperands (f : WindowFunction Expr)
    {g : (c : Expr) → c ∈ f.children → Expr} (step : ∀ c h, R c (g c h)) :
    WindowFunction.Rel R f (f.mapOperands g) := by
  cases f with
  | aggregate call => exact .aggregate (call.rel_mapOperands step)
  | rowNumber => exact .rowNumber
  | rank => exact .rank
  | denseRank => exact .denseRank
  | percentRank => exact .percentRank
  | cumeDist => exact .cumeDist
  | ntile buckets => exact .ntile (step _ _)
  | lag input offset default => exact .lag (step _ _) (option_rel_pmap step default _)
  | lead input offset default => exact .lead (step _ _) (option_rel_pmap step default _)
  | firstValue input => exact .firstValue (step _ _)
  | lastValue input => exact .lastValue (step _ _)
  | nthValue input n => exact .nthValue (step _ _)

theorem WindowFunction.rel_refl [Std.Refl R] (f : WindowFunction Expr) :
    WindowFunction.Rel R f f := by
  have same := f.rel_mapOperands (R := R) (g := fun c _ => c) fun c _ => refl c
  rwa [mapOperands_self] at same

/-- The same for a window, where a sort key keeps its direction and its order of nulls. -/
theorem WindowCall.rel_mapOperands (call : WindowCall Expr)
    {g : (c : Expr) → c ∈ call.children → Expr} (step : ∀ c h, R c (g c h)) :
    WindowCall.Rel R call (call.mapOperands g) := by
  refine ⟨call.func.rel_mapOperands fun c h => step c _, forall₂_pmap step call.partitionBy _, ?_⟩
  exact forall₂_pmap (fun key h => .mk (step key.expr h)) call.orderBy _

/-- Aggregates that differ in their operands only have operands that are related one by one. -/
theorem AggregateCall.Rel.children {call call' : AggregateCall Expr}
    (calls : AggregateCall.Rel R call call') : List.Forall₂ R call.children call'.children := by
  obtain ⟨arguments, filters⟩ := calls
  exact List.rel_append (forall₂_toList filters) arguments

/-- The same for window functions. -/
theorem WindowFunction.Rel.children {f f' : WindowFunction Expr}
    (functions : WindowFunction.Rel R f f') : List.Forall₂ R f.children f'.children := by
  cases functions with
  | aggregate calls => exact calls.children
  | rowNumber | rank | denseRank | percentRank | cumeDist => exact .nil
  | lag input default | lead input default => exact .cons input (forall₂_toList default)
  | ntile input | firstValue input | lastValue input | nthValue input => exact .cons input .nil

/-- The same for windows, with the operands of function, partition and order one after the other. -/
theorem WindowCall.Rel.children {call call' : WindowCall Expr}
    (calls : WindowCall.Rel R call call') : List.Forall₂ R call.children call'.children := by
  obtain ⟨functions, partitions, orders⟩ := calls
  refine List.rel_append (List.rel_append functions.children partitions) ?_
  refine List.rel_map ?_ orders
  intro key key' related
  obtain ⟨expressions⟩ := related
  exact expressions

namespace Expr.NodeRel

variable {e e' : Expr}

/-- A node is related to what its operands are changed into, if each operand is. -/
theorem mapOperands (e : Expr) {g : (c : Expr) → c ∈ e.children → Expr}
    (step : ∀ c h, R c (g c h)) : NodeRel R e (e.mapOperands g) := by
  cases e with
  | literal value type => exact .literal value type
  | column ref => exact .column ref
  | «alias» child name => exact .named name (step _ _)
  | unary op child => exact .unary op (step _ _)
  | binary op left right => exact .binary op (step _ _) (step _ _)
  | call f args => exact .call f (forall₂_pmap step args _)
  | conditional predicate consequent otherwise =>
      exact .conditional (step _ _) (step _ _) (step _ _)
  | case branches otherwise =>
      refine .case (forall₂_pmap (fun b h => ?_) branches _) (option_rel_pmap step otherwise _)
      exact .mk (step b.1 h.1) (step b.2 h.2)
  | pattern kind child regex => exact .pattern kind (step _ _) (step _ _)
  | inList child items negated => exact .inList negated (step _ _) (forall₂_pmap step items _)
  | inSet child values type negated => exact .inSet values type negated (step _ _)
  | cast child target => exact .cast target (step _ _)
  | aggregate agg => exact .aggregate (agg.rel_mapOperands step)
  | window win => exact .window (win.rel_mapOperands step)

/-- A node is related to itself if its operands are. -/
theorem of_children (e : Expr) (step : ∀ c ∈ e.children, R c c) : NodeRel R e e := by
  have same := mapOperands e step
  rwa [mapOperands_self] at same

/-- The operands of two such nodes are related in pairs, in the order in which they are lowered. -/
theorem children (nodes : NodeRel R e e') : List.Forall₂ R e.children e'.children := by
  cases nodes with
  | literal | column => exact .nil
  | named _ child | unary _ child | inSet _ _ _ child | cast _ child => exact .cons child .nil
  | binary _ first second | pattern _ first second => exact .cons first (.cons second .nil)
  | call f arguments => exact arguments
  | conditional first second third => exact .cons first (.cons second (.cons third .nil))
  | case branches otherwises =>
      refine List.rel_append (List.rel_flatMap branches ?_) (forall₂_toList otherwises)
      intro b b' related
      obtain ⟨conditions, results⟩ := related
      exact .cons conditions (.cons results .nil)
  | inList _ child members => exact List.rel_append members (.cons child .nil)
  | aggregate calls => exact calls.children
  | window calls => exact calls.children

/-- Of its operands, the type of a node depends on their types only. -/
theorem dataType_eq (nodes : NodeRel R e e') (step : ∀ a b, R a b → a.dataType = b.dataType) :
    e.dataType = e'.dataType := by
  cases nodes with
  | literal | column | pattern | inList | inSet | cast => rfl
  | named name children => simp only [dataType, step _ _ children]
  | unary op children => cases op <;> simp only [dataType, step _ _ children]
  | binary op lefts rights => simp only [dataType, step _ _ lefts]
  | call f arguments =>
      cases arguments with
      | nil => rfl
      | cons first rest => simp only [dataType, step _ _ first]
  | conditional predicates consequents otherwises => simp only [dataType, step _ _ consequents]
  | case branches otherwises =>
      cases branches with
      | cons first rest =>
          obtain ⟨conditions, results⟩ := first
          simp only [dataType, step _ _ results]
      | nil =>
          cases otherwises with
          | none => rfl
          | some child => simp only [dataType, step _ _ child]
  | aggregate calls =>
      obtain ⟨arguments, filters⟩ := calls
      cases arguments with
      | nil => rfl
      | cons first rest => simp only [dataType, step _ _ first]
  | window calls =>
      obtain ⟨functions, partitions, orders⟩ := calls
      cases functions with
      | aggregate calls =>
          obtain ⟨arguments, filters⟩ := calls
          cases arguments with
          | nil => rfl
          | cons first rest => simp only [dataType, step _ _ first]
      | lag inputs defaults | lead inputs defaults => simp only [dataType, step _ _ inputs]
      | firstValue inputs | lastValue inputs | nthValue inputs =>
          simp only [dataType, step _ _ inputs]
      | _ => rfl

/-- A string literal has no operands. -/
theorem stringLiteral?_eq (nodes : NodeRel R e e') : e.stringLiteral? = e'.stringLiteral? := by
  cases nodes <;> rfl

/-- Of its operands, the weekday that a node names depends on the content of string literals only.
-/
theorem weekdayName?_eq (nodes : NodeRel R e e')
    (step : ∀ a b, R a b → a.stringLiteral? = b.stringLiteral?) :
    e.weekdayName? = e'.weekdayName? := by
  cases nodes with
  | @call args args' f arguments =>
      have related := weekdayArgument?_rel f arguments
      rw [weekdayName?, weekdayName?]
      revert related
      generalize weekdayArgument? f args = day, weekdayArgument? f args' = day'
      intro related
      cases related with
      | none => rfl
      | some days => exact step _ _ days
  | _ => rfl

end Expr.NodeRel

/-- The operands of a node whose operands were all changed in one way. -/
theorem Expr.children_mapOperands (e : Expr) (g : Expr → Expr) :
    (e.mapOperands fun c _ => g c).children = e.children.map g := by
  have nodes : NodeRel (fun c c' => g c = c') e (e.mapOperands fun c _ => g c) :=
    .mapOperands e fun _ _ => rfl
  have related := nodes.children
  rw [← List.forall₂_map_left_iff (R := Eq), List.forall₂_eq_eq_eq] at related
  exact related.symm

end NodeRel

end SqlLowering
