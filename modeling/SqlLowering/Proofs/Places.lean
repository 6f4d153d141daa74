import SqlLowering.Proofs.Comparison

/-!
# Replacing a part

A place in an expression is what stands around one of its parts, node by node. Every part stands at
some place, and what stands at a place is a part.

Main statement: `Expr.lower_fill_eq`. A rule sees three things of an operand: its type, its content
if it is a string literal, and its lowering. So two expressions that agree in these three can stand
for each other at every place, and a composite call and its tree are such a pair.
-/

namespace SqlLowering

open Dialect

/-! ## Nodes with one operand left out -/

section Holes

variable {ε : Type}

/-- An aggregate with one operand left out. -/
inductive AggregateCall.Hole (ε : Type) where
  | argumentOf (func : AggregateFunction) (before after : List ε) (distinct : Bool)
      (filter : Option ε)
  | filterOf (func : AggregateFunction) (args : List ε) (distinct : Bool)

/-- The aggregate with the operand put in. -/
def AggregateCall.Hole.fill : Hole ε → ε → AggregateCall ε
  | .argumentOf func before after distinct filter, c =>
    ⟨func, before ++ c :: after, distinct, filter⟩
  | .filterOf func args distinct, c => ⟨func, args, distinct, some c⟩

/-- A window function with one operand left out. -/
inductive WindowFunction.Hole (ε : Type) where
  | aggregate (hole : AggregateCall.Hole ε)
  | ntile
  | lag (offset : Int64) (default : Option ε)
  | lagDefault (input : ε) (offset : Int64)
  | lead (offset : Int64) (default : Option ε)
  | leadDefault (input : ε) (offset : Int64)
  | firstValue
  | lastValue
  | nthValue (n : Int64)

/-- The window function with the operand put in. -/
def WindowFunction.Hole.fill : Hole ε → ε → WindowFunction ε
  | .aggregate hole, c => .aggregate (hole.fill c)
  | .ntile, c => .ntile c
  | .lag offset default, c => .lag c offset default
  | .lagDefault input offset, c => .lag input offset (some c)
  | .lead offset default, c => .lead c offset default
  | .leadDefault input offset, c => .lead input offset (some c)
  | .firstValue, c => .firstValue c
  | .lastValue, c => .lastValue c
  | .nthValue n, c => .nthValue c n

/-- A window call with one operand left out. -/
inductive WindowCall.Hole (ε : Type) where
  | function (hole : WindowFunction.Hole ε) (partitionBy : List ε) (orderBy : List (SortKey ε))
      (frame : Option WindowFrame)
  | partitionKey (func : WindowFunction ε) (before after : List ε) (orderBy : List (SortKey ε))
      (frame : Option WindowFrame)
  | sortKey (func : WindowFunction ε) (partitionBy : List ε) (before after : List (SortKey ε))
      (direction : SortDirection) (nulls : NullOrdering) (frame : Option WindowFrame)

/-- The window call with the operand put in. -/
def WindowCall.Hole.fill : Hole ε → ε → WindowCall ε
  | .function hole partitionBy orderBy frame, c => ⟨hole.fill c, partitionBy, orderBy, frame⟩
  | .partitionKey func before after orderBy frame, c =>
    ⟨func, before ++ c :: after, orderBy, frame⟩
  | .sortKey func partitionBy before after direction nulls frame, c =>
    ⟨func, partitionBy, before ++ ⟨c, direction, nulls⟩ :: after, frame⟩

end Holes

namespace Expr

/-- A node with one operand left out. -/
inductive Hole where
  | named (name : String)
  | unary (op : UnaryOp)
  | leftOf (op : BinaryOp) (right : Expr)
  | rightOf (op : BinaryOp) (left : Expr)
  | argumentOf (func : ScalarFunction) (before after : List Expr)
  | predicateOf (consequent otherwise : Expr)
  | consequentOf (predicate otherwise : Expr)
  | otherwiseOf (predicate consequent : Expr)
  | conditionOf (before after : List (Expr × Expr)) (result : Expr) (default : Option Expr)
  | resultOf (before after : List (Expr × Expr)) (condition : Expr) (default : Option Expr)
  | defaultOf (branches : List (Expr × Expr))
  | textOf (kind : MatchKind) (regex : Expr)
  | regexOf (kind : MatchKind) (text : Expr)
  | childOf (items : List Expr) (negated : Bool)
  | itemOf (child : Expr) (before after : List Expr) (negated : Bool)
  | inSet (values : List Value) (type : DataType) (negated : Bool)
  | cast (target : DataType)
  | aggregate (hole : AggregateCall.Hole Expr)
  | window (hole : WindowCall.Hole Expr)

/-- The node with the operand put in. -/
def Hole.fill : Hole → Expr → Expr
  | .named name, c => .alias c name
  | .unary op, c => .unary op c
  | .leftOf op right, c => .binary op c right
  | .rightOf op left, c => .binary op left c
  | .argumentOf func before after, c => .call func (before ++ c :: after)
  | .predicateOf consequent otherwise, c => .conditional c consequent otherwise
  | .consequentOf predicate otherwise, c => .conditional predicate c otherwise
  | .otherwiseOf predicate consequent, c => .conditional predicate consequent c
  | .conditionOf before after result default, c => .case (before ++ (c, result) :: after) default
  | .resultOf before after condition default, c =>
    .case (before ++ (condition, c) :: after) default
  | .defaultOf branches, c => .case branches (some c)
  | .textOf kind regex, c => .pattern kind c regex
  | .regexOf kind text, c => .pattern kind text c
  | .childOf items negated, c => .inList c items negated
  | .itemOf child before after negated, c => .inList child (before ++ c :: after) negated
  | .inSet values type negated, c => .inSet c values type negated
  | .cast target, c => .cast c target
  | .aggregate hole, c => .aggregate (hole.fill c)
  | .window hole, c => .window (hole.fill c)

/-- A place in an expression: the nodes around it, from the innermost outward. -/
abbrev Place := List Hole

/-- The expression with a part put in at a place. -/
def Place.fill : Place → Expr → Expr
  | [], c => c
  | hole :: outer, c => fill outer (hole.fill c)

end Expr

/-! ## Parts stand at places -/

section Parts

variable {ε : Type}

/-- An operand of an aggregate is its filter or one of its arguments, and can be left out there. -/
theorem AggregateCall.exists_hole {call : AggregateCall ε} {c : ε} (mem : c ∈ call.children) :
    ∃ hole : Hole ε, hole.fill c = call := by
  obtain ⟨func, args, distinct, filter⟩ := call
  rcases List.mem_append.mp mem with given | argument
  · obtain rfl : filter = some c := Option.mem_toList.mp given
    exact ⟨.filterOf func args distinct, rfl⟩
  · obtain ⟨before, after, rfl⟩ := List.append_of_mem argument
    exact ⟨.argumentOf func before after distinct filter, rfl⟩

/-- An operand of a window function can be left out, where the function has one. -/
theorem WindowFunction.exists_hole {f : WindowFunction ε} {c : ε} (mem : c ∈ f.children) :
    ∃ hole : Hole ε, hole.fill c = f := by
  cases f with
  | aggregate call =>
      obtain ⟨hole, rfl⟩ := AggregateCall.exists_hole mem
      exact ⟨.aggregate hole, rfl⟩
  | rowNumber | rank | denseRank | percentRank | cumeDist => cases mem
  | ntile buckets =>
      obtain rfl := List.mem_singleton.mp mem
      exact ⟨.ntile, rfl⟩
  | lag input offset default =>
      rcases List.mem_cons.mp mem with rfl | given
      · exact ⟨.lag offset default, rfl⟩
      · obtain rfl : default = some c := Option.mem_toList.mp given
        exact ⟨.lagDefault input offset, rfl⟩
  | lead input offset default =>
      rcases List.mem_cons.mp mem with rfl | given
      · exact ⟨.lead offset default, rfl⟩
      · obtain rfl : default = some c := Option.mem_toList.mp given
        exact ⟨.leadDefault input offset, rfl⟩
  | firstValue input =>
      obtain rfl := List.mem_singleton.mp mem
      exact ⟨.firstValue, rfl⟩
  | lastValue input =>
      obtain rfl := List.mem_singleton.mp mem
      exact ⟨.lastValue, rfl⟩
  | nthValue input n =>
      obtain rfl := List.mem_singleton.mp mem
      exact ⟨.nthValue n, rfl⟩

/-- An operand of a window is one of its function, a partition key or a sort key. -/
theorem WindowCall.exists_hole {call : WindowCall ε} {c : ε} (mem : c ∈ call.children) :
    ∃ hole : Hole ε, hole.fill c = call := by
  obtain ⟨func, partitionBy, orderBy, frame⟩ := call
  rcases List.mem_append.mp mem with front | sorted
  · rcases List.mem_append.mp front with inside | partitioned
    · obtain ⟨hole, rfl⟩ := WindowFunction.exists_hole inside
      exact ⟨.function hole partitionBy orderBy frame, rfl⟩
    · obtain ⟨before, after, rfl⟩ := List.append_of_mem partitioned
      exact ⟨.partitionKey func before after orderBy frame, rfl⟩
  · obtain ⟨key, listed, rfl⟩ := List.mem_map.mp sorted
    obtain ⟨before, after, rfl⟩ := List.append_of_mem listed
    exact ⟨.sortKey func partitionBy before after key.direction key.nulls frame, rfl⟩

/-- What is put into an aggregate is an operand of it. -/
theorem AggregateCall.mem_children_fill (hole : Hole ε) (c : ε) : c ∈ (hole.fill c).children := by
  cases hole <;> simp [Hole.fill, children]

theorem WindowFunction.mem_children_fill (hole : Hole ε) (c : ε) : c ∈ (hole.fill c).children := by
  cases hole with
  | aggregate hole => exact AggregateCall.mem_children_fill hole c
  | _ => simp [Hole.fill, children]

theorem WindowCall.mem_children_fill (hole : Hole ε) (c : ε) : c ∈ (hole.fill c).children := by
  cases hole with
  | function hole partitionBy orderBy frame =>
      exact mem_children_of_mem_func (WindowFunction.mem_children_fill hole c)
  | _ => simp [Hole.fill, children]

end Parts

namespace Expr

/-- Every operand can be left out of its node, by the constructors of a node. -/
theorem exists_hole {e c : Expr} (mem : c ∈ e.children) : ∃ hole : Hole, hole.fill c = e := by
  cases e with
  | literal value type => cases mem
  | column ref => cases mem
  | «alias» child name =>
      obtain rfl := List.mem_singleton.mp mem
      exact ⟨.named name, rfl⟩
  | unary op child =>
      obtain rfl := List.mem_singleton.mp mem
      exact ⟨.unary op, rfl⟩
  | binary op left right =>
      rcases List.mem_pair.mp mem with rfl | rfl
      · exact ⟨.leftOf op right, rfl⟩
      · exact ⟨.rightOf op left, rfl⟩
  | call f args =>
      obtain ⟨before, after, rfl⟩ := List.append_of_mem mem
      exact ⟨.argumentOf f before after, rfl⟩
  | conditional predicate consequent otherwise =>
      rcases List.mem_cons.mp mem with rfl | mem
      · exact ⟨.predicateOf consequent otherwise, rfl⟩
      · rcases List.mem_pair.mp mem with rfl | rfl
        · exact ⟨.consequentOf predicate otherwise, rfl⟩
        · exact ⟨.otherwiseOf predicate consequent, rfl⟩
  | case branches default =>
      rcases List.mem_append.mp mem with mem | given
      · obtain ⟨⟨condition, result⟩, found, side⟩ := List.mem_flatMap.mp mem
        obtain ⟨before, after, rfl⟩ := List.append_of_mem found
        rcases List.mem_pair.mp side with rfl | rfl
        · exact ⟨.conditionOf before after result default, rfl⟩
        · exact ⟨.resultOf before after condition default, rfl⟩
      · obtain rfl : default = some c := Option.mem_toList.mp given
        exact ⟨.defaultOf branches, rfl⟩
  | pattern kind text regex =>
      rcases List.mem_pair.mp mem with rfl | rfl
      · exact ⟨.textOf kind regex, rfl⟩
      · exact ⟨.regexOf kind text, rfl⟩
  | inList child items negated =>
      rcases List.mem_append.mp mem with listed | same
      · obtain ⟨before, after, rfl⟩ := List.append_of_mem listed
        exact ⟨.itemOf child before after negated, rfl⟩
      · obtain rfl := List.mem_singleton.mp same
        exact ⟨.childOf items negated, rfl⟩
  | inSet child values type negated =>
      obtain rfl := List.mem_singleton.mp mem
      exact ⟨.inSet values type negated, rfl⟩
  | cast child target =>
      obtain rfl := List.mem_singleton.mp mem
      exact ⟨.cast target, rfl⟩
  | aggregate agg =>
      obtain ⟨hole, rfl⟩ := AggregateCall.exists_hole mem
      exact ⟨.aggregate hole, rfl⟩
  | window win =>
      obtain ⟨hole, rfl⟩ := WindowCall.exists_hole mem
      exact ⟨.window hole, rfl⟩

/-- What is put into a node is an operand of it. -/
theorem mem_children_fill (hole : Hole) (c : Expr) : c ∈ (hole.fill c).children := by
  cases hole with
  | aggregate hole => exact AggregateCall.mem_children_fill hole c
  | window hole => exact WindowCall.mem_children_fill hole c
  | _ => simp [Hole.fill, children]

/-- The parts of an expression are what stands at its places. -/
theorem hasPart_iff_exists_place {e c : Expr} :
    e.HasPart c ↔ ∃ place : Place, place.fill c = e := by
  constructor
  · intro part
    induction part with
    | refl => exact ⟨[], rfl⟩
    | tail _ mem ih =>
        obtain ⟨outer, rfl⟩ := ih
        obtain ⟨hole, rfl⟩ := exists_hole mem
        exact ⟨hole :: outer, rfl⟩
  · rintro ⟨place, rfl⟩
    induction place generalizing c with
    | nil => exact .refl
    | cons hole outer ih => exact ih.tail (mem_children_fill hole c)

end Expr

/-! ## Two expressions at one place -/

section Filled

variable {R : Expr → Expr → Prop} [Std.Refl R] {a b : Expr}

/-- Lists that differ in one member are related member by member, as the relation holds of each
other member and itself. -/
theorem forall₂_fill {ε : Type} {S : ε → ε → Prop} [Std.Refl S] (before after : List ε) {a b : ε}
    (h : S a b) : List.Forall₂ S (before ++ a :: after) (before ++ b :: after) :=
  List.rel_append (List.forall₂_refl before) (.cons h (List.forall₂_refl after))

instance : Std.Refl (BranchRel R) := ⟨fun branch => .mk (refl branch.1) (refl branch.2)⟩

instance : Std.Refl (SortKey.Rel R) := ⟨fun key => .mk (refl key.expr)⟩

/-- Two operands at one place make aggregates that differ in this operand only. -/
theorem AggregateCall.Hole.rel_fill (hole : Hole Expr) (h : R a b) :
    AggregateCall.Rel R (hole.fill a) (hole.fill b) := by
  cases hole with
  | argumentOf func before after distinct filter =>
      exact .mk (forall₂_fill before after h) (option_rel_refl filter)
  | filterOf func args distinct => exact .mk (List.forall₂_refl args) (.some h)

/-- The same for window functions. -/
theorem WindowFunction.Hole.rel_fill (hole : Hole Expr) (h : R a b) :
    WindowFunction.Rel R (hole.fill a) (hole.fill b) := by
  cases hole with
  | aggregate hole => exact .aggregate (hole.rel_fill h)
  | ntile => exact .ntile h
  | lag offset default => exact .lag h (option_rel_refl default)
  | lagDefault input offset => exact .lag (refl input) (.some h)
  | lead offset default => exact .lead h (option_rel_refl default)
  | leadDefault input offset => exact .lead (refl input) (.some h)
  | firstValue => exact .firstValue h
  | lastValue => exact .lastValue h
  | nthValue n => exact .nthValue h

/-- The same for windows, where a sort key keeps its direction and its order of nulls. -/
theorem WindowCall.Hole.rel_fill (hole : Hole Expr) (h : R a b) :
    WindowCall.Rel R (hole.fill a) (hole.fill b) := by
  cases hole with
  | function hole partitionBy orderBy frame =>
      exact .mk (hole.rel_fill h) (List.forall₂_refl partitionBy) (List.forall₂_refl orderBy)
  | partitionKey func before after orderBy frame =>
      exact .mk func.rel_refl (forall₂_fill before after h) (List.forall₂_refl orderBy)
  | sortKey func partitionBy before after direction nulls frame =>
      exact .mk func.rel_refl (List.forall₂_refl partitionBy) (forall₂_fill before after (.mk h))

/-- Two expressions in the same hole make nodes that differ in this operand only. -/
theorem Expr.Hole.rel_fill (hole : Hole) (h : R a b) : NodeRel R (hole.fill a) (hole.fill b) := by
  cases hole with
  | named name => exact .named name h
  | unary op => exact .unary op h
  | leftOf op right => exact .binary op h (refl right)
  | rightOf op left => exact .binary op (refl left) h
  | argumentOf func before after => exact .call func (forall₂_fill before after h)
  | predicateOf consequent otherwise => exact .conditional h (refl consequent) (refl otherwise)
  | consequentOf predicate otherwise => exact .conditional (refl predicate) h (refl otherwise)
  | otherwiseOf predicate consequent => exact .conditional (refl predicate) (refl consequent) h
  | conditionOf before after result default =>
      exact .case (forall₂_fill before after (.mk h (refl result))) (option_rel_refl default)
  | resultOf before after condition default =>
      exact .case (forall₂_fill before after (.mk (refl condition) h)) (option_rel_refl default)
  | defaultOf branches => exact .case (List.forall₂_refl branches) (.some h)
  | textOf kind regex => exact .pattern kind h (refl regex)
  | regexOf kind text => exact .pattern kind (refl text) h
  | childOf items negated => exact .inList negated h (List.forall₂_refl items)
  | itemOf child before after negated =>
      exact .inList negated (refl child) (forall₂_fill before after h)
  | inSet values type negated => exact .inSet values type negated h
  | cast target => exact .cast target h
  | aggregate hole => exact .aggregate (hole.rel_fill h)
  | window hole => exact .window (hole.rel_fill h)

end Filled

/-- A lowering that comes from an optional value shows that value. -/
theorem Lowering.ofOption_injective {α : Type} : Function.Injective (ofOption (α := α)) := by
  intro x y same
  cases x <;> cases y <;> cases same <;> rfl

namespace Expr

open Lowering (Comparison)

variable {ctx : Context} {a b : Expr}

instance : Std.Refl (Agrees .equal ctx ctx) := ⟨fun _ => ⟨rfl, rfl, rfl⟩⟩

/-- A node sees of an operand only what the rules see of it. -/
theorem Agrees.fill_hole (h : Agrees .equal ctx ctx a b) (hole : Hole) :
    Agrees .equal ctx ctx (hole.fill a) (hole.fill b) := by
  have nodes : NodeRel (Agrees .equal ctx ctx) (hole.fill a) (hole.fill b) := hole.rel_fill h
  have names : (hole.fill a).weekdayName? = (hole.fill b).weekdayName? :=
    nodes.weekdayName?_eq fun _ _ related => Lowering.ofOption_injective related.stringLiteral?
  have same : Comparison.equal.Fits ctx ctx (hole.fill a) :=
    Comparison.fits_self _ ctx (hole.fill a) fun _ => rfl
  exact .of_nodes nodes (lower_compare nodes names same)

/-- So does every place. -/
theorem Agrees.fill (h : Agrees .equal ctx ctx a b) (place : Place) :
    Agrees .equal ctx ctx (place.fill a) (place.fill b) := by
  induction place generalizing a b with
  | nil => exact h
  | cons hole outer ih => exact ih (h.fill_hole hole)

/-- A composite call has the type of its tree, is no string literal, and is lowered as the tree. -/
theorem Agrees.expand {f : ScalarFunction} {args : List Expr} {tree : Expr}
    (stands : Composite.expand f args = .done tree) :
    Agrees .equal ctx ctx (.call f args) tree := by
  have expands := Composite.expands_of_expand stands
  have composite : Rule.Kind.ofFunction f = .compositeCall := by cases expands <;> rfl
  constructor
  · cases expands <;> rfl
  · cases expands <;> rfl
  · rw [lower_compositeCall ctx composite, stands]
    rfl

/-- Lowering is compositional. Two expressions of one type that are the same string literal, or both
none, and that are lowered in the same way, with the same notes, can be exchanged at every place of
a larger expression. This holds of a composite call and the tree it stands for, also where the call
is an argument of another composite call, whose tree may hold it more than once. The places reach
every part of an expression. -/
theorem lower_fill_eq (ctx : Context) :
    (∀ a b : Expr, a.dataType = b.dataType → a.stringLiteral? = b.stringLiteral? →
      a.lower ctx = b.lower ctx →
      ∀ place : Place, (place.fill a).lower ctx = (place.fill b).lower ctx) ∧
    (∀ f args tree, Composite.expand f args = .done tree →
      ∀ place : Place, (place.fill (.call f args)).lower ctx = (place.fill tree).lower ctx) ∧
    ∀ e c : Expr, e.HasPart c ↔ ∃ place : Place, place.fill c = e := by
  refine ⟨?_, ?_, fun e c => hasPart_iff_exists_place⟩
  · intro a b types literals lowerings place
    have agree : Agrees .equal ctx ctx a b :=
      ⟨types, congrArg Lowering.ofOption literals, lowerings⟩
    exact (agree.fill place).lower
  · intro f args tree stands place
    exact ((Agrees.expand stands).fill place).lower

/-- A column of dates. -/
def dayColumn : Expr := .column ⟨1, "at", none, .date⟩

/-- The place of a date for which the first Friday after it is written as a text. -/
def fridayAfter : Place := [.argumentOf .nextDay [] [.text "FRI"], .cast .string]

/-- The text of the first weekday after a date, by the days from the first of January 1970 to the
first such weekday. -/
def nextDayText (date offset : String) : String :=
  "DATE_ADD(" ++ date ++ ", INTERVAL (7 - ((DATEDIFF(" ++ date ++ ", ?) - " ++ offset ++
    ") - (FLOOR(((DATEDIFF(" ++ date ++ ", ?) - " ++ offset ++ ") / 7)) * 7))) DAY)"

/-- At this place a date is lowered as a part of the tree for the first Friday after it. -/
theorem lower_fridayAfter (ctx : Context) (date : Expr) :
    (fridayAfter.fill date).lower ctx = (do
      let operand ← (Composite.nextDay .friday date).lower ctx
      .ofOption (Conversion.convert? operand .date .string)) := by
  have named : Composite.weekday (.text "FRI") = .done .friday := by decide +kernel
  have friday : Composite.expand .nextDay [date, .text "FRI"] =
      .done (Composite.nextDay .friday date) := by
    rw [Composite.expand, named]
    rfl
  have written : fridayAfter.fill date = .cast (.call .nextDay [date, .text "FRI"]) .string := rfl
  rw [written, lower_cast, lower_compositeCall _ rfl, friday]
  rfl

/-- A name for a column changes nothing below the root. The next Monday can be written out where it
is the date of another such call, whose tree holds it three times. -/
theorem lower_fill_eq_of_next_day :
    (fridayAfter.fill (.alias dayColumn "day")).lower {} = (fridayAfter.fill dayColumn).lower {} ∧
    (∃ f, ((fridayAfter.fill dayColumn).lower {}).outcome = .done f ∧
      f.sql = "CAST(" ++ nextDayText "`at`" "1" ++ " AS CHAR)") ∧
    (fridayAfter.fill (.call .nextDay [dayColumn, .text "mon"])).lower {} =
      (fridayAfter.fill (Composite.nextDay .monday dayColumn)).lower {} ∧
    ∃ f, ((fridayAfter.fill (Composite.nextDay .monday dayColumn)).lower {}).outcome = .done f ∧
      f.sql = "CAST(" ++ nextDayText (nextDayText "`at`" "4") "1" ++ " AS CHAR)" := by
  obtain ⟨exchange, expand, -⟩ := lower_fill_eq {}
  have named : Composite.weekday (.text "mon") = .done .monday := by decide +kernel
  have monday : Composite.expand .nextDay [dayColumn, .text "mon"] =
      .done (Composite.nextDay .monday dayColumn) := by
    rw [Composite.expand, named]
    rfl
  have diff : Rule.Kind.ofFunction .dateDiff = .scalarFunction := rfl
  have floor : Rule.Kind.ofFunction .floor = .scalarFunction := rfl
  have add : Rule.Kind.ofFunction .dateAdd = .dateArithmetic := rfl
  refine ⟨exchange (.alias dayColumn "day") dayColumn rfl rfl (lower_alias _ _ _) _, ?_,
    expand _ _ _ monday _, ?_⟩
  all_goals
    rw [lower_fridayAfter]
    simp only [Composite.nextDay, Composite.daysIntoWeek, Composite.daysSince,
      Composite.daysSinceEpoch, Composite.weekNumber, Composite.floor, long, ofValue, lower_binary,
      lower_cast, lower_literal, lower_scalarFunction _ floor, lower_scalarFunction _ diff,
      lower_dateArithmetic _ add, Lowering.each, dayColumn, lower_column]
    exact ⟨_, rfl, by decide +kernel⟩

end Expr

end SqlLowering
