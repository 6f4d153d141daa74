import SqlLowering.Proofs.Codecs
import SqlLowering.Proofs.Containment
import SqlLowering.Proofs.JsonText

/-!
# Expressions read back from JSON

An expression without binary numbers is read back from what is written for it: from the JSON value
whatever its depth, and from the text on one line or over several lines if no more arrays and
objects are open at once than reading allows. The sign of a negative decimal zero is the only thing
that is lost, because the text of a zero is read without it.

Reading counts levels by the depth of the JSON value. An operand is written inside of what is
written for its node, so it is less deep, and one level less is enough for it.

Main statement: `Expr.ofText?_toJson`.
-/

namespace SqlLowering

open Json

/-! ## What is inside of a JSON value -/

namespace Json

variable {j k : Json} {items : List Json} {members : List (String × Json)}

/-- The value `k` is `j`, or stands somewhere inside of it. -/
inductive LiesIn (k : Json) : Json → Prop
  | self : LiesIn k k
  | item {items : List Json} {j : Json} (mem : j ∈ items) (inside : LiesIn k j) :
      LiesIn k (.array items)
  | field {members : List (String × Json)} {j : Json} (name : String) (mem : (name, j) ∈ members)
      (inside : LiesIn k j) : LiesIn k (.object members)

/-- What lies in the content of a variant lies in the variant. -/
theorem LiesIn.tagged (inside : LiesIn k j) (name : String) : LiesIn k (Json.tagged name j) :=
  .field name List.mem_cons_self inside

/-- An item is no deeper than the deepest one. -/
theorem depth_le_depthOfItems (mem : j ∈ items) : j.depth ≤ depthOfItems items := by
  induction items with
  | nil => cases mem
  | cons i items ih =>
      rw [depthOfItems]
      rcases List.mem_cons.mp mem with rfl | later
      · exact Nat.le_max_left _ _
      · exact Nat.le_trans (ih later) (Nat.le_max_right _ _)

/-- The same for the members of an object. -/
theorem depth_le_depthOfMembers {m : String × Json} (mem : m ∈ members) :
    m.2.depth ≤ depthOfMembers members := by
  have values (members : List (String × Json)) :
      depthOfMembers members = depthOfItems (members.map (·.2)) := by
    induction members with
    | nil => rfl
    | cons m members ih => rw [depthOfMembers, ih, List.map_cons, depthOfItems]
  rw [values]
  exact depth_le_depthOfItems (List.mem_map_of_mem mem)

/-- Each array and object around a value adds to the depth. -/
theorem LiesIn.depth_le (inside : LiesIn k j) : k.depth ≤ j.depth := by
  induction inside with
  | self => exact Nat.le_refl _
  | item mem _ ih =>
      rw [depth]
      exact Nat.le_succ_of_le (Nat.le_trans ih (depth_le_depthOfItems mem))
  | field name mem _ ih =>
      rw [depth]
      exact Nat.le_succ_of_le (Nat.le_trans ih (depth_le_depthOfMembers mem))

/-- A variant is an object, so it is deeper than what lies in its content. -/
theorem LiesIn.depth_lt_tagged (inside : LiesIn k j) (name : String) :
    k.depth < (Json.tagged name j).depth := by
  rw [Json.tagged, depth, depthOfMembers, depthOfMembers, Nat.max_zero]
  exact Nat.lt_succ_of_le inside.depth_le

/-- Items that are kept whole make a list that is. -/
theorem limitItems_eq {limit : Nat} (each : ∀ j ∈ items, j.limitDepth limit = j) :
    limitItems limit items = items := by
  induction items with
  | nil => rfl
  | cons j items ih =>
      obtain ⟨first, others⟩ := List.forall_mem_cons.mp each
      rw [limitItems, first, ih others]

/-- The same for the members of an object. -/
theorem limitMembers_eq {limit : Nat} (each : ∀ m ∈ members, m.2.limitDepth limit = m.2) :
    limitMembers limit members = members := by
  induction members with
  | nil => rfl
  | cons m members ih =>
      obtain ⟨first, others⟩ := List.forall_mem_cons.mp each
      rw [limitMembers, first, ih others]

/-- A value that is not too deep is kept whole. -/
theorem Plain.limitDepth_eq (plain : Plain j) {limit : Nat} (shallow : j.depth ≤ limit) :
    j.limitDepth limit = j := by
  induction plain generalizing limit with
  | null => cases limit <;> rfl
  | bool b => cases limit <;> rfl
  | int i => cases limit <;> rfl
  | string s => cases limit <;> rfl
  | array each ih =>
      rw [depth] at shallow
      cases limit with
      | zero => cases shallow
      | succ limit =>
          have below := Nat.le_of_succ_le_succ shallow
          rw [limitDepth, limitItems_eq]
          exact fun j mem => ih j mem (Nat.le_trans (depth_le_depthOfItems mem) below)
  | object each ih =>
      rw [depth] at shallow
      cases limit with
      | zero => cases shallow
      | succ limit =>
          have below := Nat.le_of_succ_le_succ shallow
          rw [limitDepth, limitMembers_eq]
          exact fun m mem => ih m mem (Nat.le_trans (depth_le_depthOfMembers mem) below)

attribute [simp] Plain.null Plain.bool Plain.int Plain.string

@[simp] theorem plain_nat (n : Nat) : Plain (.nat n) :=
  .int n

/-- An array is plain if all its items are. -/
@[simp] theorem plain_array : Plain (.array items) ↔ ∀ j ∈ items, Plain j := by
  constructor
  · rintro ⟨⟩
    assumption
  · exact .array

/-- An object is plain if all its values are. -/
@[simp] theorem plain_object : Plain (.object members) ↔ ∀ m ∈ members, Plain m.2 := by
  constructor
  · rintro ⟨⟩
    assumption
  · exact .object

@[simp] theorem plain_tagged {name : String} : Plain (tagged name j) ↔ Plain j := by
  simp [tagged]

/-- A missing value is written as a null, which is plain. -/
theorem plain_ofOption {α : Type} {write : α → Json} {x : Option α}
    (each : ∀ a, x = some a → Plain (write a)) : Plain (.ofOption (x.map write)) := by
  cases x with
  | none => exact .null
  | some a => exact each a rfl

end Json

/-! ## Operands inside of what is written for a node -/

namespace Expr

/-- Operands are written one by one. -/
theorem listToJson_eq_map (es : List Expr) : listToJson es = es.map toJson := by
  induction es with
  | nil => rfl
  | cons e es ih => rw [listToJson, ih, List.map_cons]

theorem optionToJson_eq_map (x : Option Expr) : optionToJson x = x.map toJson := by
  cases x <;> rfl

/-- A branch is written as a pair. -/
theorem branchesToJson_eq_map (branches : List (Expr × Expr)) :
    branchesToJson branches = branches.map fun b => .array [b.1.toJson, b.2.toJson] := by
  induction branches with
  | nil => rfl
  | cons b branches ih => rw [branchesToJson, ih, List.map_cons]

/-- A sort key keeps its direction and its order of nulls. -/
theorem keysToJson_eq_map (keys : List (SortKey Expr)) :
    keysToJson keys = keys.map fun key => ⟨key.expr.toJson, key.direction, key.nulls⟩ := by
  induction keys with
  | nil => rfl
  | cons key keys ih => rw [keysToJson, ih, List.map_cons]

/-- An aggregate is written with what is written for its operands in their place. -/
theorem callToJson_eq_mapOperands (call : AggregateCall Expr) :
    ⟨call.func, listToJson call.args, call.distinct, optionToJson call.filter⟩ =
      call.mapOperands fun c _ => c.toJson := by
  simp [AggregateCall.mapOperands, listToJson_eq_map, optionToJson_eq_map]

/-- The same for a window function, by its constructors. -/
theorem functionToJson_eq_mapOperands (f : WindowFunction Expr) :
    functionToJson f = f.mapOperands fun c _ => c.toJson := by
  cases f with
  | aggregate call => exact congrArg WindowFunction.aggregate (callToJson_eq_mapOperands call)
  | _ => simp [functionToJson, WindowFunction.mapOperands, optionToJson_eq_map]

theorem toJson_aggregate (call : AggregateCall Expr) :
    (aggregate call).toJson = tagged "Aggregate" (call.mapOperands fun c _ => c.toJson).toJson := by
  rw [← callToJson_eq_mapOperands]
  rfl

/-- The same for a whole window, so that it can be read back as one over any operands. -/
theorem toJson_window (call : WindowCall Expr) :
    (window call).toJson = tagged "Window" (call.mapOperands fun c _ => c.toJson).toJson := by
  simp [toJson, WindowCall.mapOperands, functionToJson_eq_mapOperands, listToJson_eq_map,
    keysToJson_eq_map]

/-- An expression is never written as a null, so it is not taken for a missing one. -/
theorem toJson_ne_null (e : Expr) : e.toJson ≠ .null := by
  cases e <;> rintro ⟨⟩

end Expr

section Calls

variable {ε : Type} {write : ε → Json}

theorem Json.LiesIn.mapped {c : ε} {xs : List ε} (mem : c ∈ xs) :
    LiesIn (write c) (.array (xs.map write)) :=
  .item (List.mem_map_of_mem mem) .self

/-- An operand is written under the filter or among the arguments. -/
theorem AggregateCall.liesIn_toJson (call : AggregateCall ε) {c : ε} (mem : c ∈ call.children) :
    LiesIn (write c) (call.mapOperands fun c _ => write c).toJson := by
  rw [children, List.mem_append, Option.mem_toList] at mem
  simp only [toJson, mapOperands, List.pmap_eq_map, Option.pmap_eq_map]
  rcases mem with only | listed
  · rw [Option.mem_def.mp only]
    exact .field "filter" (by simp [ofOption]) .self
  · exact .field "args" (by simp) (.mapped listed)

/-- An operand of a shift is written under its name, also the default. -/
theorem WindowFunction.liesIn_shift {input c : ε} {default : Option ε} (offset : Int64)
    (mem : c ∈ input :: default.toList) :
    LiesIn (write c) (shiftToJson (write input) offset (default.map write)) := by
  rw [List.mem_cons, Option.mem_toList] at mem
  rcases mem with rfl | only
  · exact .field "input" (by simp) .self
  · rw [Option.mem_def.mp only]
    exact .field "default" (by simp [ofOption]) .self

/-- An operand of a window function is written inside of its variant. -/
theorem WindowFunction.liesIn_toJson (f : WindowFunction ε) {c : ε} (mem : c ∈ f.children) :
    LiesIn (write c) (f.mapOperands fun c _ => write c).toJson := by
  cases f with
  | aggregate call => exact (call.liesIn_toJson mem).tagged "Aggregate"
  | lag input offset default =>
      simp only [mapOperands, toJson, Option.pmap_eq_map]
      exact (liesIn_shift offset mem).tagged "Lag"
  | lead input offset default =>
      simp only [mapOperands, toJson, Option.pmap_eq_map]
      exact (liesIn_shift offset mem).tagged "Lead"
  | ntile buckets =>
      rw [List.mem_singleton.mp mem]
      exact LiesIn.self.tagged "Ntile"
  | firstValue input =>
      rw [List.mem_singleton.mp mem]
      exact LiesIn.self.tagged "FirstValue"
  | lastValue input =>
      rw [List.mem_singleton.mp mem]
      exact LiesIn.self.tagged "LastValue"
  | nthValue input n =>
      rw [List.mem_singleton.mp mem]
      exact (LiesIn.item List.mem_cons_self .self).tagged "NthValue"
  | rowNumber | rank | denseRank | percentRank | cumeDist => cases mem

/-- An operand of a window is written with the function or among the keys. -/
theorem WindowCall.liesIn_toJson (call : WindowCall ε) {c : ε} (mem : c ∈ call.children) :
    LiesIn (write c) (call.mapOperands fun c _ => write c).toJson := by
  rw [children, List.mem_append, List.mem_append, List.mem_map] at mem
  simp only [toJson, mapOperands, List.pmap_eq_map]
  rcases mem with (func | listed) | ⟨key, listed, rfl⟩
  · exact .field "func" (by simp) (call.func.liesIn_toJson func)
  · exact .field "partition_by" (by simp) (.mapped listed)
  · have inside : LiesIn (write key.expr)
        (SortKey.toJson ⟨write key.expr, key.direction, key.nulls⟩) :=
      .field "expr" (by simp) .self
    exact .field "order_by" (.tail _ (.tail _ (.head _)))
      (.item (List.mem_map_of_mem (List.mem_map_of_mem listed)) inside)

/-- An aggregate adds names and truth values to its operands, no numbers. -/
theorem AggregateCall.plain_toJson (call : AggregateCall ε)
    (each : ∀ c ∈ call.children, Plain (write c)) :
    Plain (call.mapOperands fun c _ => write c).toJson := by
  have args (c : ε) (mem : c ∈ call.args) := each c (mem_children_of_mem_args mem)
  have filter := plain_ofOption fun c only => each c (mem_children_of_filter only)
  simpa [toJson, mapOperands, filter] using args

/-- An offset is an integer. -/
theorem WindowFunction.plain_shift {input : ε} {default : Option ε} (offset : Int64)
    (each : ∀ c ∈ input :: default.toList, Plain (write c)) :
    Plain (shiftToJson (write input) offset (default.map write)) := by
  have first := each input List.mem_cons_self
  have other := plain_ofOption fun c only =>
    each c (List.mem_cons_of_mem _ (Option.mem_toList.mpr only))
  simp [shiftToJson, first, other]

/-- A window function is plain if its operands are, as its own numbers are integers. -/
theorem WindowFunction.plain_toJson (f : WindowFunction ε)
    (each : ∀ c ∈ f.children, Plain (write c)) :
    Plain (f.mapOperands fun c _ => write c).toJson := by
  cases f with
  | aggregate call => exact plain_tagged.mpr (call.plain_toJson each)
  | lag input offset default =>
      simp only [mapOperands, toJson, Option.pmap_eq_map, plain_tagged]
      exact plain_shift offset each
  | lead input offset default =>
      simp only [mapOperands, toJson, Option.pmap_eq_map, plain_tagged]
      exact plain_shift offset each
  | ntile buckets => exact plain_tagged.mpr (each buckets (mem_children_ntile buckets))
  | firstValue input => exact plain_tagged.mpr (each input (mem_children_firstValue input))
  | lastValue input => exact plain_tagged.mpr (each input (mem_children_lastValue input))
  | nthValue input n =>
      have first := each input (mem_children_nthValue input n)
      simp [mapOperands, toJson, first]
  | rowNumber | rank | denseRank | percentRank | cumeDist => exact .string _

/-- The distances of a frame are integers. -/
theorem WindowFrame.plain_toJson (frame : WindowFrame) : Plain frame.toJson := by
  have boundary (b : FrameBoundary) : Plain b.toJson := by
    cases b <;> simp [FrameBoundary.toJson]
  have kind : Plain frame.kind.toJson := by
    cases frame.kind <;> simp [FrameKind.toJson]
  simp [toJson, boundary, kind]

/-- A window is plain if its operands are. -/
theorem WindowCall.plain_toJson (call : WindowCall ε)
    (each : ∀ c ∈ call.children, Plain (write c)) :
    Plain (call.mapOperands fun c _ => write c).toJson := by
  have func := call.func.plain_toJson fun c mem => each c (mem_children_of_mem_func mem)
  have partitions (c : ε) (mem : c ∈ call.partitionBy) :=
    each c (mem_children_of_mem_partitionBy mem)
  have orders (key : SortKey ε) (mem : key ∈ call.orderBy) :
      Plain (SortKey.toJson ⟨write key.expr, key.direction, key.nulls⟩) := by
    have operand := each key.expr (mem_children_of_mem_orderBy mem)
    cases key.direction <;> cases key.nulls <;>
      simp [SortKey.toJson, SortDirection.toJson, NullOrdering.toJson, operand]
  have frame := plain_ofOption fun frame (_ : call.frame = some frame) => frame.plain_toJson
  simpa [toJson, mapOperands, func, frame] using ⟨partitions, orders⟩

end Calls

theorem DataType.plain_toJson (t : DataType) : Plain t.toJson := by
  cases t <;> simp [toJson]

theorem ColumnRef.plain_toJson (c : ColumnRef) : Plain c.toJson := by
  have owner := plain_ofOption fun q (_ : c.qualifier = some q) => Plain.string q
  simp [toJson, owner, c.dataType.plain_toJson]

theorem MatchKind.plain_toJson (kind : MatchKind) : Plain kind.toJson := by
  cases kind <;> simp [toJson]

/-- Only binary numbers are written as numbers that are no integers; a decimal is written as a
string. -/
theorem Value.plain_toJson {v : Value} (precise : v.isApproximate = false) : Plain v.toJson := by
  cases v with
  | float x => cases precise
  | double x => cases precise
  | _ => simp [toJson]

namespace Expr

/-- The values that a node holds itself. -/
def ownValues : Expr → List Value
  | .literal value _ => [value]
  | .inSet _ values _ _ => values
  | _ => []

theorem liesIn_listToJson {c : Expr} {es : List Expr} (mem : c ∈ es) :
    c.toJson.LiesIn (.array (listToJson es)) := by
  rw [listToJson_eq_map]
  exact .mapped mem

/-- What is written for an operand lies in what is written for its node. -/
theorem exists_liesIn_of_mem_children {e c : Expr} (mem : c ∈ e.children) :
    ∃ name content, e.toJson = tagged name content ∧ c.toJson.LiesIn content := by
  cases e with
  | literal value type => cases mem
  | column ref => cases mem
  | «alias» child name | unary op child | cast child target =>
      rw [List.mem_singleton.mp mem]
      exact ⟨_, _, rfl, .field "child" (by simp) .self⟩
  | inSet child values type negated =>
      rw [List.mem_singleton.mp mem]
      exact ⟨_, _, rfl, .field "child" (by simp) .self⟩
  | binary op left right =>
      rcases List.mem_pair.mp mem with rfl | rfl
      · exact ⟨_, _, rfl, .field "left" (by simp) .self⟩
      · exact ⟨_, _, rfl, .field "right" (by simp) .self⟩
  | pattern kind child regex =>
      rcases List.mem_pair.mp mem with rfl | rfl
      · exact ⟨_, _, rfl, .field "child" (by simp) .self⟩
      · exact ⟨_, _, rfl, .field "pattern" (by simp) .self⟩
  | call func args =>
      have listed : c ∈ args := mem
      exact ⟨_, _, rfl, .field "args" (by simp) (liesIn_listToJson listed)⟩
  | conditional predicate consequent otherwise =>
      rcases List.mem_cons.mp mem with rfl | mem
      · exact ⟨_, _, rfl, .field "predicate" (by simp) .self⟩
      rcases List.mem_pair.mp mem with rfl | rfl
      · exact ⟨_, _, rfl, .field "then" (by simp) .self⟩
      · exact ⟨_, _, rfl, .field "otherwise" (by simp) .self⟩
  | case branches otherwise =>
      rcases List.mem_append.mp mem with mem | only
      · obtain ⟨b, listed, side⟩ := List.mem_flatMap.mp mem
        have branch : Json.array [b.1.toJson, b.2.toJson] ∈ branchesToJson branches := by
          rw [branchesToJson_eq_map]
          exact List.mem_map_of_mem listed
        have inside : c.toJson ∈ [b.1.toJson, b.2.toJson] := List.mem_map_of_mem (f := toJson) side
        exact ⟨_, _, rfl, .field "branches" (by simp) (.item branch (.item inside .self))⟩
      · rw [Option.mem_def.mp (Option.mem_toList.mp only)]
        exact ⟨_, _, rfl, .field "otherwise" (by simp [optionToJson, ofOption]) .self⟩
  | inList child items negated =>
      rcases List.mem_append.mp mem with listed | mem
      · exact ⟨_, _, rfl, .field "list" (by simp) (liesIn_listToJson listed)⟩
      · rw [List.mem_singleton.mp mem]
        exact ⟨_, _, rfl, .field "child" (by simp) .self⟩
  | aggregate agg => exact ⟨_, _, toJson_aggregate agg, agg.liesIn_toJson mem⟩
  | window win => exact ⟨_, _, toJson_window win, win.liesIn_toJson mem⟩

/-- An operand is less deep than its node, which is what the levels of reading are counted by. -/
theorem depth_lt_of_mem_children {e c : Expr} (mem : c ∈ e.children) :
    c.toJson.depth < e.toJson.depth := by
  obtain ⟨name, content, shape, inside⟩ := exists_liesIn_of_mem_children mem
  rw [shape]
  exact inside.depth_lt_tagged name

/-- A node is written plainly if its operands are and none of its values is a binary number. -/
theorem plain_toJson_of_children {e : Expr} (each : ∀ c ∈ e.children, Plain c.toJson)
    (own : ∀ v ∈ e.ownValues, v.isApproximate = false) : Plain e.toJson := by
  cases e with
  | literal value type =>
      have first := Value.plain_toJson (own value List.mem_cons_self)
      simp [toJson, first, type.plain_toJson]
  | column ref => exact plain_tagged.mpr ref.plain_toJson
  | «alias» child name => simpa [toJson, children] using each
  | unary op child => simpa [toJson, children] using each
  | binary op left right => simpa [toJson, children] using each
  | call func args => simpa [toJson, children, listToJson_eq_map] using each
  | conditional predicate consequent otherwise => simpa [toJson, children] using each
  | case branches otherwise =>
      have other := plain_ofOption fun c only => each c (mem_children_of_case_otherwise only)
      have list : Plain (.array (branches.map fun b => .array [b.1.toJson, b.2.toJson])) := by
        refine .array fun j mem => ?_
        obtain ⟨b, listed, rfl⟩ := List.mem_map.mp mem
        have condition := each b.1 (condition_mem_children listed)
        have result := each b.2 (result_mem_children listed)
        simp [condition, result]
      rw [toJson, optionToJson_eq_map, branchesToJson_eq_map]
      simp only [plain_tagged, plain_object, List.forall_mem_cons]
      exact ⟨list, other, by simp⟩
  | pattern kind child regex => simpa [toJson, children, kind.plain_toJson] using each
  | inList child items negated =>
      have first := each child (mem_children_inList child items negated)
      have members (c : Expr) (mem : c ∈ items) : Plain c.toJson :=
        each c (mem_children_of_mem_inList mem)
      simpa [toJson, listToJson_eq_map, first] using members
  | inSet child values type negated =>
      have first := each child (mem_children_inSet child values type negated)
      have members (v : Value) (mem : v ∈ values) : Plain v.toJson :=
        Value.plain_toJson (own v mem)
      simpa [toJson, first, type.plain_toJson] using members
  | cast child target => simpa [toJson, children, target.plain_toJson] using each
  | aggregate agg =>
      rw [toJson_aggregate]
      exact plain_tagged.mpr (agg.plain_toJson each)
  | window win =>
      rw [toJson_window]
      exact plain_tagged.mpr (win.plain_toJson each)

/-- Every value in an expression has a property. -/
def EachValue (P : Value → Prop) (e : Expr) : Prop :=
  ∀ part, e.HasPart part → ∀ v ∈ part.ownValues, P v

/-- Every value is one of the node or of an operand, by the first step of the way down. -/
theorem eachValue_iff {P : Value → Prop} {e : Expr} :
    e.EachValue P ↔ (∀ v ∈ e.ownValues, P v) ∧ ∀ c ∈ e.children, c.EachValue P := by
  constructor
  · intro each
    exact ⟨each e .refl, fun c mem part inside => each part (.head mem inside)⟩
  · rintro ⟨own, below⟩ part inside
    rcases inside.cases_head with rfl | ⟨c, mem, inside⟩
    · exact own
    · exact below c mem part inside

/-- What is written for an expression without binary numbers has no numbers but integers. -/
theorem EachValue.plain_toJson {e : Expr} (each : e.EachValue fun v => v.isApproximate = false) :
    Plain e.toJson := by
  obtain ⟨own, below⟩ := eachValue_iff.mp each
  exact plain_toJson_of_children (fun c mem => (below c mem).plain_toJson) own
termination_by sizeOf e
decreasing_by exact sizeOf_lt_of_mem_children mem

/-! ## Reading back -/

/-- The node without the sign of a negative decimal zero among its own values. -/
def plainZero : Expr → Expr
  | .literal value type => .literal value.plainZero type
  | .inSet child values type negated => .inSet child (values.map Value.plainZero) type negated
  | e => e

/-- The expression without the sign of any negative decimal zero. -/
def plainZeros (e : Expr) : Expr :=
  plainZero (e.mapOperands fun c _ => c.plainZeros)
termination_by sizeOf e
decreasing_by exact sizeOf_lt_of_mem_children ‹_›

/-- Nothing changes if each operand stays what it is. -/
theorem mapOperands_eq_self {e : Expr} {g : (c : Expr) → c ∈ e.children → Expr}
    (same : ∀ c mem, g c mem = c) : e.mapOperands g = e := by
  have unchanged : g = fun c _ => c := by
    funext c mem
    exact same c mem
  rw [unchanged, mapOperands_self]

/-- Operands do not count among the values of a node. -/
theorem ownValues_plainZeros (e : Expr) :
    e.plainZeros.ownValues = e.ownValues.map Value.plainZero := by
  rw [plainZeros]
  cases e <;> rfl

/-- Values do not count among the operands of a node. -/
theorem children_plainZeros (e : Expr) : e.plainZeros.children = e.children.map plainZeros := by
  rw [← children_mapOperands e plainZeros, plainZeros]
  cases e <;> rfl

/-- Without negative zeros nothing changes. -/
theorem EachValue.plainZeros_eq {e : Expr} (each : e.EachValue fun v => v.isNegativeZero = false) :
    e.plainZeros = e := by
  obtain ⟨own, below⟩ := eachValue_iff.mp each
  have operands : (e.mapOperands fun c _ => c.plainZeros) = e :=
    mapOperands_eq_self fun c mem => (below c mem).plainZeros_eq
  rw [plainZeros, operands]
  cases e with
  | literal value type => rw [plainZero, Value.plainZero_eq_iff.mpr (own value List.mem_cons_self)]
  | inSet child values type negated =>
      have same : values.map Value.plainZero = values.map id :=
        List.map_congr_left fun v mem => Value.plainZero_eq_iff.mpr (own v mem)
      rw [plainZero, same, List.map_id]
  | _ => rfl
termination_by sizeOf e
decreasing_by exact sizeOf_lt_of_mem_children mem

/-- With a negative zero somewhere the expression is another one, because the lists of values and
of operands show the change. -/
theorem eachValue_of_plainZeros_eq {e : Expr} (same : e.plainZeros = e) :
    e.EachValue fun v => v.isNegativeZero = false := by
  have values : e.ownValues.map Value.plainZero = e.ownValues.map id := by
    rw [← ownValues_plainZeros, same, List.map_id]
  have operands : e.children.map plainZeros = e.children.map id := by
    rw [← children_plainZeros, same, List.map_id]
  refine eachValue_iff.mpr ⟨?_, ?_⟩
  · intro v mem
    exact Value.plainZero_eq_iff.mp (List.map_inj_left.mp values v mem)
  · intro c mem
    exact eachValue_of_plainZeros_eq (List.map_inj_left.mp operands c mem)
termination_by sizeOf e
decreasing_by exact sizeOf_lt_of_mem_children mem

theorem mapOperands_call (f : ScalarFunction) (args : List Expr) (g : Expr → Expr) :
    ((call f args).mapOperands fun c _ => g c) = .call f (args.map g) :=
  congrArg (Expr.call f) (List.pmap_eq_map _)

/-- A branch is read back as the pair of its two sides. -/
theorem branchOfJson?_branch {operand : Json → Option Expr} {g : Expr → Expr} {b : Expr × Expr}
    (condition : operand b.1.toJson = some (g b.1)) (result : operand b.2.toJson = some (g b.2)) :
    branchOfJson? operand (.array [b.1.toJson, b.2.toJson]) = some (g b.1, g b.2) := by
  simp [branchOfJson?, condition, result]

/-- A node is read back if its operands are, one level below. -/
theorem ofJsonWithin_succ {e : Expr} {levels : Nat} {g : Expr → Expr}
    (own : ∀ v ∈ e.ownValues, v.isApproximate = false)
    (each : ∀ c ∈ e.children, ofJsonWithin levels c.toJson = some (g c)) :
    ofJsonWithin (levels + 1) e.toJson = some (plainZero (e.mapOperands fun c _ => g c)) := by
  have content (name : String) (j : Json) : ofJsonWithin (levels + 1) (tagged name j) =
      ofContent? (ofJsonWithin levels) name j := rfl
  cases e with
  | literal value type =>
      have first := Value.ofJson?_toJson (own value List.mem_cons_self)
      rw [toJson, content]
      simp [ofContent?, record?, field?, first, type.ofJson?_toJson, mapOperands, plainZero]
  | column ref =>
      rw [toJson, content]
      simp [ofContent?, ref.ofJson?_toJson, mapOperands, plainZero]
  | «alias» child name =>
      have first := each child (mem_children_alias child name)
      rw [toJson, content]
      simp [ofContent?, record?, field?, first, toString?, mapOperands, plainZero]
  | unary op child =>
      have first := each child (mem_children_unary op child)
      rw [toJson, content]
      simp [ofContent?, record?, field?, unitName?, variant?, op.ofName?_name, first, mapOperands,
        plainZero]
  | binary op left right =>
      have first := each left (left_mem_children op left right)
      have second := each right (right_mem_children op left right)
      rw [toJson, content]
      simp [ofContent?, record?, field?, unitName?, variant?, op.ofName?_name, first, second,
        mapOperands, plainZero]
  | call func args =>
      have members : toList? (ofJsonWithin levels) (.array (args.map toJson)) = some (args.map g) :=
        toList?_map each
      rw [toJson, content, listToJson_eq_map, mapOperands_call]
      simp [ofContent?, record?, field?, unitName?, variant?, func.ofName?_name, members, plainZero]
  | conditional predicate consequent otherwise =>
      have first := each predicate (predicate_mem_children predicate consequent otherwise)
      have second := each consequent (consequent_mem_children predicate consequent otherwise)
      have third := each otherwise (otherwise_mem_children predicate consequent otherwise)
      rw [toJson, content]
      simp [ofContent?, record?, field?, first, second, third, mapOperands, plainZero]
  | case branches otherwise =>
      have list := toList?_map fun b mem =>
        branchOfJson?_branch (each b.1 (condition_mem_children mem))
          (each b.2 (result_mem_children mem))
      have other := toOption?_map toJson_ne_null
        fun c only => each c (mem_children_of_case_otherwise only)
      rw [toJson, content, optionToJson_eq_map, branchesToJson_eq_map]
      simp [ofContent?, record?, field?, list, other, mapOperands, plainZero]
  | pattern kind child regex =>
      have first := each child (text_mem_children kind child regex)
      have second := each regex (regex_mem_children kind child regex)
      rw [toJson, content]
      simp [ofContent?, record?, field?, kind.ofJson?_toJson, first, second, mapOperands, plainZero]
  | inList child items negated =>
      have first := each child (mem_children_inList child items negated)
      have members := toList?_map fun c mem => each c (mem_children_of_mem_inList mem)
      rw [toJson, content, listToJson_eq_map]
      simp [ofContent?, record?, field?, first, members, toBool?, mapOperands, plainZero]
  | inSet child values type negated =>
      have first := each child (mem_children_inSet child values type negated)
      have members : toList? Value.ofJson? (.array (values.map Value.toJson)) =
          some (values.map Value.plainZero) :=
        toList?_map fun v mem => Value.ofJson?_toJson (own v mem)
      rw [toJson, content]
      simp [ofContent?, record?, field?, first, members, type.ofJson?_toJson, toBool?, mapOperands,
        plainZero]
  | cast child target =>
      have first := each child (mem_children_cast child target)
      rw [toJson, content]
      simp [ofContent?, record?, field?, first, target.ofJson?_toJson, mapOperands, plainZero]
  | aggregate agg =>
      have whole := agg.ofJson?_toJson toJson_ne_null each
      rw [toJson_aggregate, content]
      simp only [ofContent?, whole]
      rfl
  | window win =>
      have whole := win.ofJson?_toJson toJson_ne_null each
      rw [toJson_window, content]
      simp only [ofContent?, whole]
      rfl

/-- Every expression is written as an object, so it needs at least one level. -/
theorem depth_toJson_pos (e : Expr) : 0 < e.toJson.depth := by
  cases e <;> exact Nat.succ_pos _

/-- As many levels as the value is deep are enough. -/
theorem EachValue.ofJsonWithin_toJson {e : Expr}
    (each : e.EachValue fun v => v.isApproximate = false) {levels : Nat}
    (enough : e.toJson.depth ≤ levels) : ofJsonWithin levels e.toJson = some e.plainZeros := by
  -- on the levels, which fall from a node to its operands as the depth of what is written does
  induction levels generalizing e with
  | zero => exact absurd e.depth_toJson_pos (Nat.not_lt.mpr enough)
  | succ levels ih =>
      obtain ⟨own, below⟩ := eachValue_iff.mp each
      rw [plainZeros]
      refine ofJsonWithin_succ own fun c mem => ih (below c mem) ?_
      exact Nat.le_of_lt_succ (Nat.lt_of_lt_of_le (depth_lt_of_mem_children mem) enough)

/-- The limit on nesting leaves what is within it. -/
theorem EachValue.ofNested?_toJson {e : Expr}
    (each : e.EachValue fun v => v.isApproximate = false) (shallow : e.toJson.depth ≤ nesting) :
    ofNested? e.toJson = some e.plainZeros := by
  rw [ofNested?, each.plain_toJson.limitDepth_eq shallow]
  exact each.ofJsonWithin_toJson (Nat.le_refl _)

/-- Both texts of the JSON form lead back to it, and the limit does not cut it. -/
theorem EachValue.ofText?_texts {e : Expr} (each : e.EachValue fun v => v.isApproximate = false)
    (shallow : e.toJson.depth ≤ nesting) :
    ofText? e.toJson.compact = some e.plainZeros ∧ ofText? e.toJson.pretty = some e.plainZeros := by
  have nested := each.ofNested?_toJson shallow
  constructor
  · rw [ofText?, read?_compact each.plain_toJson]
    exact nested
  · rw [ofText?, read?_pretty each.plain_toJson]
    exact nested

/-- **Round trip.** An expression without binary numbers is read back from its JSON form, and from
both texts of it if it is not nested too deep. The sign of a negative decimal zero is lost and
nothing else, so what is read is the expression itself exactly if it has no negative decimal zero.
-/
theorem ofText?_toJson {e : Expr} (each : e.EachValue fun v => v.isApproximate = false) :
    ofJson? e.toJson = some e.plainZeros ∧
    (e.toJson.depth ≤ nesting →
      ofText? e.toJson.compact = some e.plainZeros ∧
      ofText? e.toJson.pretty = some e.plainZeros) ∧
    (e.plainZeros = e ↔ e.EachValue fun v => v.isNegativeZero = false) :=
  ⟨each.ofJsonWithin_toJson (Nat.le_refl _), each.ofText?_texts, eachValue_of_plainZeros_eq,
    EachValue.plainZeros_eq⟩

/-- Values with special texts: a trailing zero, a year before the first, a year of five digits with
a leap second and a fraction, no bytes at all, and a string with every kind of escape. -/
def edgeValues : List Value :=
  [.decimal ⟨true, 250, 2, by decide, by decide⟩, .date ⟨-44, 3, 15, by decide⟩,
   .timestamp ⟨⟨12345, 12, 31, by decide⟩, 23, 59, 60, 1000000, by decide⟩, .binary [],
   .string "\"\n\x01", .null]

/-- A window function over these values, with empty lists and without the optional parts. -/
def edgeWindow : Expr :=
  .window
    { func := .lag
        (.inSet (.column ⟨18446744073709551615, "id", none, .decimal 38 2⟩) edgeValues .null true)
        (-9223372036854775808) none
      partitionBy := []
      orderBy := [⟨.case [] none, .descending, .nullsLast⟩]
      frame := some ⟨.rows, .offset (-9223372036854775808), .currentRow⟩ }

/-- The window has no values but these. -/
theorem eachValue_edgeWindow {P : Value → Prop} (own : ∀ v ∈ edgeValues, P v) :
    edgeWindow.EachValue P := by
  have leaf {e : Expr} (childless : e.children = []) (valueless : e.ownValues = []) :
      e.EachValue P :=
    eachValue_iff.mpr (by simp [childless, valueless])
  refine eachValue_iff.mpr ⟨List.forall_mem_nil P, fun c mem => ?_⟩
  rcases List.mem_pair.mp mem with rfl | rfl
  · refine eachValue_iff.mpr ⟨own, fun c mem => ?_⟩
    rw [List.mem_singleton.mp mem]
    exact leaf rfl rfl
  · exact leaf rfl rfl

/-- The window is not nested deep and has no negative zero, so it comes back as it is. -/
theorem ofText?_toJson_of_edgeWindow :
    (edgeWindow.EachValue fun v => v.isApproximate = false) ∧
      ofJson? edgeWindow.toJson = some edgeWindow ∧
      ofText? edgeWindow.toJson.compact = some edgeWindow ∧
      ofText? edgeWindow.toJson.pretty = some edgeWindow := by
  have each : edgeWindow.EachValue fun v => v.isApproximate = false :=
    eachValue_edgeWindow (by decide)
  have signs : edgeWindow.EachValue fun v => v.isNegativeZero = false :=
    eachValue_edgeWindow (by decide)
  obtain ⟨json, texts, same⟩ := ofText?_toJson each
  rw [same.mpr signs] at json texts
  exact ⟨each, json, texts (by decide)⟩

/-- The zero with a sign to which a small negative number is rounded. -/
def negativeZero : Number.Decimal := ⟨true, 0, 28, by decide, by decide⟩

/-- A literal of this zero, with the type it has on its own. -/
def negativeZeroLiteral : Expr := .literal (.decimal negativeZero) (.decimal 28 28)

/-- Such a zero is read from a text with a power of ten. What is written for it has no power, and
there a zero is read without a sign, so the literal does not come back. -/
theorem ofText?_toJson_ne_of_negative_zero :
    Number.Decimal.parse? "-0.04e-28" = some negativeZero ∧
    (negativeZeroLiteral.EachValue fun v => v.isApproximate = false) ∧
    negativeZeroLiteral.toJson.depth ≤ nesting ∧
    ofJson? negativeZeroLiteral.toJson ≠ some negativeZeroLiteral ∧
    ofText? negativeZeroLiteral.toJson.compact ≠ some negativeZeroLiteral ∧
    ofText? negativeZeroLiteral.toJson.pretty ≠ some negativeZeroLiteral := by
  have each : negativeZeroLiteral.EachValue fun v => v.isApproximate = false :=
    eachValue_iff.mpr (by simp [negativeZeroLiteral, ownValues, children, Value.isApproximate])
  have shallow : negativeZeroLiteral.toJson.depth ≤ nesting := by decide
  have changed : some negativeZeroLiteral.plainZeros ≠ some negativeZeroLiteral := by
    intro same
    have signs := eachValue_of_plainZeros_eq (Option.some.inj same)
    have sign : (Value.decimal negativeZero).isNegativeZero = false :=
      signs _ .refl _ List.mem_cons_self
    cases sign
  have json : ofJson? negativeZeroLiteral.toJson = some negativeZeroLiteral.plainZeros :=
    each.ofJsonWithin_toJson (Nat.le_refl _)
  obtain ⟨compact, pretty⟩ := each.ofText?_texts shallow
  rw [json, compact, pretty]
  exact ⟨by decide +kernel, each, shallow, changed, changed, changed⟩

end Expr

end SqlLowering
