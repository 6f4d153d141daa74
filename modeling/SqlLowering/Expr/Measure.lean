import SqlLowering.Expr.Basic

/-!
# Operands, size and composite depth

`Expr.children` lists the operands of a node in the order in which they are lowered. The size
of a tree and the greatest number of composite calls on a path from its root are both defined
through it. A tree without composite calls has depth zero.
-/

namespace SqlLowering

variable {ε : Type}

namespace AggregateCall

/-- The operands of an aggregate: the filter, then the arguments. -/
def children (call : AggregateCall ε) : List ε :=
  call.filter.toList ++ call.args

theorem mem_children_of_filter {call : AggregateCall ε} {c : ε} (h : call.filter = some c) :
    c ∈ call.children :=
  List.mem_append_left _ (Option.mem_toList.mpr h)

theorem mem_children_of_mem_args {call : AggregateCall ε} {c : ε} (h : c ∈ call.args) :
    c ∈ call.children :=
  List.mem_append_right _ h

end AggregateCall

namespace WindowFunction

/-- The operands of a window function. -/
def children : WindowFunction ε → List ε
  | .aggregate call => call.children
  | .rowNumber | .rank | .denseRank | .percentRank | .cumeDist => []
  | .ntile buckets => [buckets]
  | .lag input _ default | .lead input _ default => input :: default.toList
  | .firstValue input | .lastValue input | .nthValue input _ => [input]

theorem mem_children_ntile (buckets : ε) : buckets ∈ (ntile buckets).children :=
  .head _

theorem mem_children_lag (input : ε) (offset : Int64) (default : Option ε) :
    input ∈ (lag input offset default).children :=
  .head _

theorem mem_children_lead (input : ε) (offset : Int64) (default : Option ε) :
    input ∈ (lead input offset default).children :=
  .head _

theorem mem_children_of_lag_default {input c : ε} {offset : Int64} {default : Option ε}
    (h : default = some c) : c ∈ (lag input offset default).children :=
  .tail _ (Option.mem_toList.mpr h)

theorem mem_children_of_lead_default {input c : ε} {offset : Int64} {default : Option ε}
    (h : default = some c) : c ∈ (lead input offset default).children :=
  .tail _ (Option.mem_toList.mpr h)

theorem mem_children_firstValue (input : ε) : input ∈ (firstValue input).children :=
  .head _

theorem mem_children_lastValue (input : ε) : input ∈ (lastValue input).children :=
  .head _

theorem mem_children_nthValue (input : ε) (n : Int64) : input ∈ (nthValue input n).children :=
  .head _

end WindowFunction

namespace WindowCall

/-- The operands of a window call: those of the function, the partition keys, the sort keys. -/
def children (call : WindowCall ε) : List ε :=
  call.func.children ++ call.partitionBy ++ call.orderBy.map (·.expr)

theorem mem_children_of_mem_func {call : WindowCall ε} {c : ε} (h : c ∈ call.func.children) :
    c ∈ call.children :=
  List.mem_append_left _ (List.mem_append_left _ h)

theorem mem_children_of_mem_partitionBy {call : WindowCall ε} {c : ε}
    (h : c ∈ call.partitionBy) : c ∈ call.children :=
  List.mem_append_left _ (List.mem_append_right _ h)

theorem mem_children_of_mem_orderBy {call : WindowCall ε} {key : SortKey ε}
    (h : key ∈ call.orderBy) : key.expr ∈ call.children :=
  List.mem_append_right _ (List.mem_map_of_mem h)

end WindowCall

namespace Expr

/-- The operands of a node. -/
def children : Expr → List Expr
  | .literal .. | .column _ => []
  | .alias child _ | .unary _ child | .inSet child _ _ _ | .cast child _ => [child]
  | .binary _ left right => [left, right]
  | .call _ args => args
  | .conditional predicate consequent otherwise => [predicate, consequent, otherwise]
  | .case branches otherwise => branches.flatMap (fun b => [b.1, b.2]) ++ otherwise.toList
  | .pattern _ child regex => [child, regex]
  | .inList child items _ => items ++ [child]
  | .aggregate agg => agg.children
  | .window win => win.children

theorem mem_children_alias (child : Expr) (name : String) :
    child ∈ (Expr.alias child name).children :=
  .head _

theorem mem_children_unary (op : UnaryOp) (child : Expr) : child ∈ (unary op child).children :=
  .head _

theorem mem_children_cast (child : Expr) (target : DataType) :
    child ∈ (cast child target).children :=
  .head _

theorem left_mem_children (op : BinaryOp) (left right : Expr) :
    left ∈ (binary op left right).children :=
  .head _

theorem right_mem_children (op : BinaryOp) (left right : Expr) :
    right ∈ (binary op left right).children :=
  .tail _ (.head _)

theorem first_mem_children (func : ScalarFunction) (first second : Expr) :
    first ∈ (call func [first, second]).children :=
  .head _

theorem second_mem_children (func : ScalarFunction) (first second : Expr) :
    second ∈ (call func [first, second]).children :=
  .tail _ (.head _)

theorem predicate_mem_children (predicate consequent otherwise : Expr) :
    predicate ∈ (conditional predicate consequent otherwise).children :=
  .head _

theorem consequent_mem_children (predicate consequent otherwise : Expr) :
    consequent ∈ (conditional predicate consequent otherwise).children :=
  .tail _ (.head _)

theorem otherwise_mem_children (predicate consequent otherwise : Expr) :
    otherwise ∈ (conditional predicate consequent otherwise).children :=
  .tail _ (.tail _ (.head _))

theorem condition_mem_children {branches : List (Expr × Expr)} {otherwise : Option Expr}
    {branch : Expr × Expr} (h : branch ∈ branches) :
    branch.1 ∈ (case branches otherwise).children :=
  List.mem_append_left _ (List.mem_flatMap.mpr ⟨branch, h, .head _⟩)

theorem result_mem_children {branches : List (Expr × Expr)} {otherwise : Option Expr}
    {branch : Expr × Expr} (h : branch ∈ branches) :
    branch.2 ∈ (case branches otherwise).children :=
  List.mem_append_left _ (List.mem_flatMap.mpr ⟨branch, h, .tail _ (.head _)⟩)

theorem mem_children_of_case_otherwise {branches : List (Expr × Expr)} {otherwise : Option Expr}
    {c : Expr} (h : otherwise = some c) : c ∈ (case branches otherwise).children :=
  List.mem_append_right _ (Option.mem_toList.mpr h)

theorem text_mem_children (kind : MatchKind) (child regex : Expr) :
    child ∈ (pattern kind child regex).children :=
  .head _

theorem regex_mem_children (kind : MatchKind) (child regex : Expr) :
    regex ∈ (pattern kind child regex).children :=
  .tail _ (.head _)

theorem mem_children_of_mem_inList {child c : Expr} {items : List Expr} {negated : Bool}
    (h : c ∈ items) : c ∈ (inList child items negated).children :=
  List.mem_append_left _ h

theorem mem_children_inList (child : Expr) (items : List Expr) (negated : Bool) :
    child ∈ (inList child items negated).children :=
  List.mem_append_right _ (.head _)

theorem mem_children_inSet (child : Expr) (values : List Value) (type : DataType)
    (negated : Bool) : child ∈ (inSet child values type negated).children :=
  .head _

private theorem sizeOf_lt_aggregate {call : AggregateCall Expr} {c : Expr}
    (h : c ∈ call.children) : sizeOf c < sizeOf call := by
  obtain ⟨func, args, distinct, filter⟩ := call
  simp only [AggregateCall.children, List.mem_append, Option.mem_toList] at h
  rcases h with h | h
  · simp only [h, AggregateCall.mk.sizeOf_spec, Option.some.sizeOf_spec]
    omega
  · have := List.sizeOf_lt_of_mem h
    simp only [AggregateCall.mk.sizeOf_spec]
    omega

private theorem sizeOf_lt_option {o : Option Expr} {c : Expr} (h : c ∈ o.toList) :
    sizeOf c < sizeOf o := by
  obtain rfl : o = some c := by simpa using h
  simp

private theorem sizeOf_lt_function {func : WindowFunction Expr} {c : Expr}
    (h : c ∈ func.children) : sizeOf c < sizeOf func := by
  cases func with
  | aggregate call =>
    have := sizeOf_lt_aggregate h
    simp only [WindowFunction.aggregate.sizeOf_spec]
    omega
  | lag input offset default =>
    rcases List.mem_cons.mp h with rfl | h
    · simp only [WindowFunction.lag.sizeOf_spec]
      omega
    · have := sizeOf_lt_option h
      simp only [WindowFunction.lag.sizeOf_spec]
      omega
  | lead input offset default =>
    rcases List.mem_cons.mp h with rfl | h
    · simp only [WindowFunction.lead.sizeOf_spec]
      omega
    · have := sizeOf_lt_option h
      simp only [WindowFunction.lead.sizeOf_spec]
      omega
  | _ => simp_all [WindowFunction.children] <;> omega

private theorem sizeOf_lt_window {call : WindowCall Expr} {c : Expr} (h : c ∈ call.children) :
    sizeOf c < sizeOf call := by
  obtain ⟨func, partitionBy, orderBy, frame⟩ := call
  simp only [WindowCall.children, List.append_assoc, List.mem_append, List.mem_map] at h
  rcases h with h | h | ⟨key, h, rfl⟩
  · have := sizeOf_lt_function h
    simp only [WindowCall.mk.sizeOf_spec]
    omega
  · have := List.sizeOf_lt_of_mem h
    simp only [WindowCall.mk.sizeOf_spec]
    omega
  · have := List.sizeOf_lt_of_mem h
    obtain ⟨expr, direction, nulls⟩ := key
    simp only [SortKey.mk.sizeOf_spec] at this
    simp only [WindowCall.mk.sizeOf_spec]
    omega

/-- An operand is smaller than its node. -/
theorem sizeOf_lt_of_mem_children {c e : Expr} (h : c ∈ e.children) : sizeOf c < sizeOf e := by
  cases e with
  | literal value dataType => simp [children] at h
  | column ref => simp [children] at h
  | call func args =>
    have : sizeOf c < sizeOf args := List.sizeOf_lt_of_mem h
    simp only [call.sizeOf_spec]
    omega
  | case branches otherwise =>
    simp only [children, List.mem_append, List.mem_flatMap, List.mem_cons, List.not_mem_nil,
      or_false] at h
    rcases h with ⟨⟨condition, result⟩, hb, h⟩ | h
    · have := List.sizeOf_lt_of_mem hb
      simp only [Prod.mk.sizeOf_spec] at this
      simp only [case.sizeOf_spec]
      rcases h with rfl | rfl <;> omega
    · have := sizeOf_lt_option h
      simp only [case.sizeOf_spec]
      omega
  | inList child items negated =>
    simp only [children, List.mem_append, List.mem_singleton] at h
    simp only [inList.sizeOf_spec]
    rcases h with h | rfl
    · have := List.sizeOf_lt_of_mem h
      omega
    · omega
  | aggregate agg =>
    have := sizeOf_lt_aggregate h
    simp only [aggregate.sizeOf_spec]
    omega
  | window win =>
    have := sizeOf_lt_window h
    simp only [window.sizeOf_spec]
    omega
  | _ =>
    simp only [children, List.mem_cons, List.not_mem_nil, or_false] at h
    rcases h with rfl | rfl | rfl <;> simp <;> omega

/-- The number of nodes of a tree. -/
def size (e : Expr) : Nat :=
  1 + (e.children.attach.map fun c => c.1.size).foldr (· + ·) 0
termination_by sizeOf e
decreasing_by exact sizeOf_lt_of_mem_children c.2

/-- The node is a composite call. -/
def isCompositeCall : Expr → Bool
  | .call func _ => func.isComposite
  | _ => false

/-- The greatest number of composite calls on a path from the root. -/
def compositeDepth (e : Expr) : Nat :=
  (if e.isCompositeCall then 1 else 0) +
    (e.children.attach.map fun c => c.1.compositeDepth).foldr max 0
termination_by sizeOf e
decreasing_by exact sizeOf_lt_of_mem_children c.2

/-- The greatest composite depth among several trees. -/
def greatestDepth (es : List Expr) : Nat :=
  (es.map compositeDepth).foldr max 0

theorem size_eq (e : Expr) : e.size = 1 + (e.children.map size).foldr (· + ·) 0 := by
  rw [size, List.attach_map_val (f := size)]

theorem compositeDepth_eq (e : Expr) :
    e.compositeDepth = (if e.isCompositeCall then 1 else 0) + greatestDepth e.children := by
  rw [compositeDepth, List.attach_map_val (f := compositeDepth), greatestDepth]

@[simp] theorem greatestDepth_nil : greatestDepth [] = 0 := rfl

@[simp] theorem greatestDepth_cons (e : Expr) (es : List Expr) :
    greatestDepth (e :: es) = max e.compositeDepth (greatestDepth es) := rfl

theorem compositeDepth_le_greatestDepth {c : Expr} {es : List Expr} (h : c ∈ es) :
    c.compositeDepth ≤ greatestDepth es := by
  induction es with
  | nil => simp at h
  | cons e es ih =>
    rw [greatestDepth_cons]
    rcases List.mem_cons.mp h with rfl | h
    · exact Nat.le_max_left _ _
    · exact Nat.le_trans (ih h) (Nat.le_max_right _ _)

@[simp] theorem compositeDepth_literal (value : Value) (type : DataType) :
    (literal value type).compositeDepth = 0 := by
  simp [compositeDepth_eq, children, isCompositeCall]

@[simp] theorem compositeDepth_cast (child : Expr) (target : DataType) :
    (cast child target).compositeDepth = child.compositeDepth := by
  rw [compositeDepth_eq (cast child target)]
  simp [children, isCompositeCall]

@[simp] theorem compositeDepth_binary (op : BinaryOp) (left right : Expr) :
    (binary op left right).compositeDepth = max left.compositeDepth right.compositeDepth := by
  rw [compositeDepth_eq (binary op left right)]
  simp [children, isCompositeCall]

@[simp] theorem compositeDepth_call (func : ScalarFunction) (args : List Expr) :
    (call func args).compositeDepth =
      (if func.isComposite then 1 else 0) + greatestDepth args :=
  compositeDepth_eq (call func args)

/-- A path in an operand is part of a path in the node. -/
theorem compositeDepth_le_of_mem_children {c e : Expr} (h : c ∈ e.children) :
    c.compositeDepth ≤ e.compositeDepth := by
  rw [compositeDepth_eq e]
  exact Nat.le_trans (compositeDepth_le_greatestDepth h) (Nat.le_add_left _ _)

private theorem size_le_sum {c : Expr} {es : List Expr} (h : c ∈ es) :
    c.size ≤ (es.map size).foldr (· + ·) 0 := by
  induction es with
  | nil => simp at h
  | cons e es ih =>
    rw [List.map_cons, List.foldr_cons]
    rcases List.mem_cons.mp h with rfl | h
    · exact Nat.le_add_right _ _
    · exact Nat.le_trans (ih h) (Nat.le_add_left _ _)

/-- An operand has fewer nodes than its node. -/
theorem size_lt_of_mem_children {c e : Expr} (h : c ∈ e.children) : c.size < e.size := by
  have := size_le_sum h
  rw [size_eq e]
  omega

end Expr

end SqlLowering
