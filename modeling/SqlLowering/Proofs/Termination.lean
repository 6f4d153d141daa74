import Mathlib.Logic.Function.Iterate
import Mathlib.Order.Bounds.Basic
import SqlLowering.Proofs.Containment

/-!
# The end of lowering

A composite call is lowered through a tree that is larger than the call and may hold an argument
several times, so the size of an expression does not bound the work below it. What becomes less is
the number of composite calls on a path: the tree is built over the arguments from other nodes, and
the call itself is gone. Where that number stays the same, the way down leads to an operand, which
is smaller.

How far down lowering goes is said by unfolding it a number of times. `Rule.step` lowers one node
and takes the answers for everything below from a function, so its iterates go down a fixed number
of nodes and then make up an answer. From some number on the answers that are made up do not matter.
That number is ten for each node of the expression, since at most nine nodes stand above an
argument in the tree of a composite call.

Main statement: `Rule.recursion_ends`.
-/

namespace SqlLowering

open Dialect

namespace Expr

/-! ## Paths -/

/-- A path from the root of an expression to a leaf, by its nodes. -/
inductive IsPath : Expr → List Expr → Prop
  | leaf {e : Expr} (childless : e.children = []) : IsPath e [e]
  | step {e c : Expr} {path : List Expr} (mem : c ∈ e.children) (rest : IsPath c path) :
      IsPath e (e :: path)

/-- Some expression of a list reaches the greatest depth in it. -/
theorem exists_compositeDepth_eq_greatestDepth {es : List Expr} (nonempty : es ≠ []) :
    ∃ c ∈ es, c.compositeDepth = greatestDepth es := by
  induction es with
  | nil => exact absurd rfl nonempty
  | cons e es ih =>
      rw [greatestDepth_cons]
      by_cases first : greatestDepth es ≤ e.compositeDepth
      · exact ⟨e, List.mem_cons_self, (Nat.max_eq_left first).symm⟩
      · have rest : es ≠ [] := by
          rintro rfl
          exact first (Nat.zero_le _)
        obtain ⟨c, mem, greatest⟩ := ih rest
        refine ⟨c, List.mem_cons_of_mem e mem, ?_⟩
        rw [greatest]
        omega

/-- Each step of a path counts its node at most once, as the depth does. -/
theorem IsPath.countP_le {e : Expr} {path : List Expr} (h : e.IsPath path) :
    path.countP isCompositeCall ≤ e.compositeDepth := by
  induction h with
  | @leaf e childless =>
      rw [compositeDepth_eq, List.countP_singleton]
      omega
  | @step e c path mem _ ih =>
      have below := compositeDepth_le_greatestDepth mem
      rw [compositeDepth_eq, List.countP_cons]
      omega

/-- A path that always goes on to the deepest operand has as many composite calls as the depth. -/
theorem exists_isPath (e : Expr) :
    ∃ path, e.IsPath path ∧ path.countP isCompositeCall = e.compositeDepth := by
  by_cases childless : e.children = []
  · refine ⟨[e], .leaf childless, ?_⟩
    rw [compositeDepth_eq, childless, List.countP_singleton, greatestDepth_nil, Nat.add_zero]
  · obtain ⟨c, mem, greatest⟩ := exists_compositeDepth_eq_greatestDepth childless
    obtain ⟨path, isPath, count⟩ := exists_isPath c
    refine ⟨e :: path, .step mem isPath, ?_⟩
    rw [compositeDepth_eq, List.countP_cons, count, greatest, Nat.add_comm]
termination_by sizeOf e
decreasing_by exact sizeOf_lt_of_mem_children mem

/-- The composite depth is the greatest number of composite calls on a path. -/
theorem isGreatest_compositeDepth (e : Expr) :
    IsGreatest {n | ∃ path, e.IsPath path ∧ path.countP isCompositeCall = n} e.compositeDepth := by
  refine ⟨e.exists_isPath, ?_⟩
  rintro n ⟨path, isPath, rfl⟩
  exact isPath.countP_le

/-- Only composite calls stand for a tree. -/
theorem isCompositeCall_of_expansion {e tree : Expr} (h : e.expansion = .done tree) :
    e.isCompositeCall = true := by
  cases e with
  | call f args => exact (Composite.compositeDepth_le_of_expand h).1
  | _ => cases h

/-- Less in the order in which lowering goes down: fewer composite calls on a path, or as many and
fewer nodes. -/
def Below (c e : Expr) : Prop :=
  Prod.Lex (· < ·) (· < ·) (c.compositeDepth, c.size) (e.compositeDepth, e.size)

/-- An operand is no deeper than its node and has fewer nodes. -/
theorem below_of_mem_children {c e : Expr} (h : c ∈ e.children) : c.Below e := by
  have depth := compositeDepth_le_of_mem_children h
  have size := size_lt_of_mem_children h
  rw [Below, Prod.lex_def]
  omega

/-- A tree has fewer composite calls on a path, however many nodes it has. -/
theorem below_of_expansion {e tree : Expr} (h : e.expansion = .done tree) : tree.Below e :=
  .left _ _ (compositeDepth_lt_of_expansion h)

end Expr

/-! ## Trees over arguments -/

namespace Composite

/-- A tree that is built over arguments from nodes that are no composite calls, with at most `n` of
them above an argument. -/
inductive Over (args : List Expr) : Nat → Expr → Prop
  | arg {a : Expr} (mem : a ∈ args) (n : Nat) : Over args n a
  | node {e : Expr} {n : Nat} (plain : e.isCompositeCall = false)
      (parts : ∀ c ∈ e.children, Over args n c) : Over args (n + 1) e

namespace Over

variable {args : List Expr} {x y : Expr} {n m : Nat}

/-- The bound may be larger than is needed. -/
theorem mono (h : Over args n x) (le : n ≤ m) : Over args m x := by
  induction h generalizing m with
  | arg mem n => exact .arg mem m
  | @node e n plain parts ih =>
      cases m with
      | zero => omega
      | succ m => exact .node plain fun c mem => ih c mem (Nat.le_of_succ_le_succ le)

/-- A literal has nothing above an argument. -/
theorem literal (value : Value) (type : DataType) (n : Nat) :
    Over args (n + 1) (.literal value type) := by
  refine .node rfl fun c mem => ?_
  cases mem

theorem cast (h : Over args n x) (target : DataType) : Over args (n + 1) (.cast x target) := by
  refine .node rfl fun c mem => ?_
  rw [List.mem_singleton.mp mem]
  exact h

theorem binary (op : BinaryOp) (hx : Over args n x) (hy : Over args n y) :
    Over args (n + 1) (.binary op x y) := by
  refine .node rfl fun c mem => ?_
  rcases List.mem_pair.mp mem with rfl | rfl
  · exact hx
  · exact hy

theorem call {f : ScalarFunction} {xs : List Expr} (plain : f.isComposite = false)
    (h : ∀ x ∈ xs, Over args n x) : Over args (n + 1) (.call f xs) :=
  .node plain h

/-- The calls in these trees mostly have two arguments. -/
theorem pair {f : ScalarFunction} (plain : f.isComposite = false) (hx : Over args n x)
    (hy : Over args n y) : Over args (n + 1) (.call f [x, y]) := by
  refine .call plain fun c mem => ?_
  rcases List.mem_pair.mp mem with rfl | rfl
  · exact hx
  · exact hy

/-- Above the date stand a cast, a difference of dates and a subtraction. -/
theorem daysSince (h : Over args n x) (start : Calendar.Weekday) :
    Over args (n + 3) (daysSince start x) :=
  .binary .sub (.pair rfl (h.cast .date) (.literal _ _ n)) (.literal _ _ (n + 1))

/-- A division and a rounding are added above the days. -/
theorem weekNumber (h : Over args n x) (start : Calendar.Weekday) :
    Over args (n + 5) (weekNumber start x) := by
  refine .call rfl fun c mem => ?_
  rw [List.mem_singleton.mp mem]
  exact .binary .div (h.daysSince start) (.literal _ _ (n + 2))

/-- The longest way leads through the number of the week, and four more nodes stand above it. -/
theorem nextDay (h : Over args n x) (day : Calendar.Weekday) :
    Over args (n + 9) (nextDay day x) := by
  have days : Over args (n + 6) (Composite.daysSince day x) := (h.daysSince day).mono (by omega)
  have weeks : Over args (n + 6) (.binary .mul (Composite.weekNumber day x) (.long 7)) :=
    .binary .mul (h.weekNumber day) (.literal _ _ (n + 4))
  have date : Over args (n + 8) (.cast x .date) := (h.cast .date).mono (by omega)
  exact .pair rfl date (.binary .sub (.literal _ _ (n + 6)) (.binary .sub days weeks))

/-- A call and a cast stand above the arguments. -/
theorem localDate (hx : Over args n x) (hy : Over args n y) :
    Over args (n + 3) (localDate x y) := by
  refine cast (.call rfl fun c mem => ?_) .date
  rcases List.mem_cons.mp mem with rfl | mem
  · exact hx.mono (by omega)
  · rcases List.mem_pair.mp mem with rfl | rfl
    · exact .literal _ _ n
    · exact hy.mono (by omega)

/-- A cast and a call are added above the local date. -/
theorem dayStart (hx : Over args n x) (hy : Over args n y) :
    Over args (n + 5) (dayStart x y) := by
  refine .call rfl fun c mem => ?_
  rcases List.mem_cons.mp mem with rfl | mem
  · exact (hx.localDate hy).cast .timestamp
  · rcases List.mem_pair.mp mem with rfl | rfl
    · exact hy.mono (by omega)
    · exact .literal _ _ (n + 3)

/-- The composite calls in such a tree lie in the arguments. -/
theorem exists_of_hasPart {c : Expr} (h : Over args n x) (part : x.HasPart c)
    (composite : c.isCompositeCall = true) : ∃ a ∈ args, a.HasPart c := by
  induction h with
  | @arg a mem n => exact ⟨a, mem, part⟩
  | @node e n plain parts ih =>
      rcases Relation.ReflTransGen.cases_head part with rfl | ⟨d, mem, rest⟩
      · rw [plain] at composite
        cases composite
      · exact ih d mem rest

end Over

/-- The tree of a composite call is built over its arguments. -/
theorem over_of_expand {f : ScalarFunction} {args : List Expr} {tree : Expr}
    (h : expand f args = .done tree) : Over args 9 tree := by
  have argument {a : Expr} (mem : a ∈ args) : Over args 0 a := .arg mem 0
  cases expands_of_expand h with
  | dayStart instant zone =>
      exact ((argument (by simp)).dayStart (argument (by simp))).mono (by decide)
  | date input zone =>
      have instant := (argument (a := input) (by simp)).cast .timestamp
      exact (instant.localDate ((argument (by simp)).mono (by decide))).mono (by decide)
  | parsedDate input format zone =>
      have instant : Over [input, format, zone] 1 (.call .strToDate [input, format]) :=
        .pair rfl (argument (by simp)) (argument (by simp))
      exact (instant.localDate ((argument (by simp)).mono (by decide))).mono (by decide)
  | dayDiff later earlier =>
      have days : Over [later, earlier] 2
          (.call .dateDiff [.cast later .date, .cast earlier .date]) :=
        .pair rfl ((argument (by simp)).cast .date) ((argument (by simp)).cast .date)
      exact days.mono (by decide)
  | @weekDiff start day _ later earlier =>
      have weeks : Over [later, earlier, start] 6 (weekDiff day later earlier) :=
        .binary .sub ((argument (by simp)).weekNumber day) ((argument (by simp)).weekNumber day)
      exact weeks.mono (by decide)
  | @nextDay _ day _ date => exact (argument (by simp)).nextDay day
  | weekdayName date =>
      have name : Over [date] 2 (.call .dateFormat [date, .text "EEEE"]) :=
        .pair rfl (.arg (by simp) 1) (.literal _ _ 0)
      exact name.mono (by decide)
  | formattedTime seconds format =>
      have instant : Over [seconds, format] 1 (.call .fromUnixTime [seconds]) :=
        .call rfl fun c mem => argument (List.mem_of_mem_head? (List.mem_singleton.mp mem ▸ rfl))
      have shown : Over [seconds, format] 2
          (.call .dateFormat [.call .fromUnixTime [seconds], format]) :=
        .pair rfl instant (.arg (by simp) 1)
      exact shown.mono (by decide)

end Composite

/-! ## Sizes -/

namespace Expr

theorem size_literal (value : Value) (type : DataType) : (literal value type).size = 1 := by
  rw [size_eq]
  rfl

theorem size_cast (x : Expr) (target : DataType) : (cast x target).size = 1 + x.size := by
  rw [size_eq]
  rfl

theorem size_binary (op : BinaryOp) (x y : Expr) :
    (binary op x y).size = 1 + (x.size + y.size) := by
  rw [size_eq]
  rfl

variable (f : ScalarFunction) (x y z : Expr)

theorem size_call_one : (call f [x]).size = 1 + x.size := by
  rw [size_eq]
  rfl

theorem size_call_two : (call f [x, y]).size = 1 + (x.size + y.size) := by
  rw [size_eq]
  rfl

theorem size_call_three : (call f [x, y, z]).size = 1 + (x.size + (y.size + z.size)) := by
  rw [size_eq]
  rfl

/-- A string literal is a node of its own. -/
theorem size_of_stringLiteral? {e : Expr} {letters : String}
    (h : e.stringLiteral? = some letters) : e.size = 1 := by
  rw [size_eq, children_of_stringLiteral? h]
  rfl

end Expr

namespace Composite

open SqlLowering.Expr

/-- A date stands in its days since a weekday once. -/
theorem size_daysSince (start : Calendar.Weekday) (x : Expr) :
    (daysSince start x).size = x.size + 5 := by
  simp only [daysSince, daysSinceEpoch, long, ofValue, size_binary, size_call_two, size_cast,
    size_literal]
  omega

/-- It stands in the number of its week once. -/
theorem size_weekNumber (start : Calendar.Weekday) (x : Expr) :
    (weekNumber start x).size = x.size + 8 := by
  simp only [weekNumber, floor, long, ofValue, size_binary, size_call_one, size_literal,
    size_daysSince]
  omega

/-- The date stands in the tree three times. -/
theorem size_nextDay (day : Calendar.Weekday) (date : Expr) :
    (nextDay day date).size = 3 * date.size + 20 := by
  simp only [nextDay, daysIntoWeek, long, ofValue, size_binary, size_call_two, size_cast,
    size_literal, size_daysSince, size_weekNumber]
  omega

/-- Two nodes and a literal are added to the arguments. -/
theorem size_localDate (instant zone : Expr) :
    (localDate instant zone).size = instant.size + zone.size + 3 := by
  simp only [localDate, utc, Expr.text, ofValue, size_call_three, size_cast, size_literal]
  omega

/-- The tree of a composite call has more nodes than the call. -/
theorem size_lt_of_expand {f : ScalarFunction} {args : List Expr} {tree : Expr}
    (h : expand f args = .done tree) : (Expr.call f args).size < tree.size := by
  have one {e : Expr} {day : Calendar.Weekday} (named : weekday e = .done day) : e.size = 1 := by
    obtain ⟨letters, literal⟩ := exists_of_weekday_eq_done named
    exact size_of_stringLiteral? literal
  cases expands_of_expand h with
  | dayStart instant zone =>
      simp only [dayStart, utc, Expr.text, ofValue, size_call_two, size_call_three, size_cast,
        size_literal, size_localDate]
      omega
  | date input zone =>
      simp only [size_call_two, size_localDate, size_cast]
      omega
  | parsedDate input format zone =>
      simp only [size_call_two, size_call_three, size_localDate]
      omega
  | dayDiff later earlier =>
      simp only [size_call_two, size_cast]
      omega
  | weekDiff named later earlier =>
      simp only [weekDiff, size_call_three, size_binary, size_weekNumber, one named]
      omega
  | nextDay named date =>
      simp only [size_call_two, size_nextDay, one named]
      omega
  | weekdayName date =>
      simp only [Expr.text, ofValue, size_call_one, size_call_two, size_literal]
      omega
  | formattedTime seconds format =>
      simp only [size_call_one, size_call_two]
      omega

end Composite

/-! ## Unfolding -/

namespace Rule

/-- Lower one node, with given answers for the operands and for the tree that it stands for. -/
def step (rules : List Rule) (ctx : Context) (answer : Expr → Lowering Fragment) (e : Expr) :
    Lowering Fragment :=
  firstOf ctx e ⟨fun c _ => answer c, fun tree _ => answer tree⟩ rules

variable {rules : List Rule} {ctx : Context} {e : Expr} {n m : Nat}

/-- Lowering is a step whose answers are given by lowering. -/
theorem lowerWith_eq_step (rules : List Rule) (ctx : Context) (e : Expr) :
    lowerWith rules ctx e = step rules ctx (lowerWith rules ctx) e := by
  rw [lowerWith]
  rfl

/-- Nothing else is asked for. -/
theorem step_congr {answer answer' : Expr → Lowering Fragment}
    (operand : ∀ c ∈ e.children, answer c = answer' c)
    (expanded : ∀ tree, e.expansion = .done tree → answer tree = answer' tree) :
    step rules ctx answer e = step rules ctx answer' e := by
  have descent : (⟨fun c _ => answer c, fun tree _ => answer tree⟩ : Descent e) =
      ⟨fun c _ => answer' c, fun tree _ => answer' tree⟩ := by
    congr 1
    · funext c mem
      exact operand c mem
    · funext tree stands
      exact expanded tree stands
  rw [step, step, descent]

/-- The lowering of an expression is settled by going down `n` nodes, whatever is answered there. -/
def Settled (rules : List Rule) (ctx : Context) (n : Nat) (e : Expr) : Prop :=
  ∀ answer, (step rules ctx)^[n] answer e = lowerWith rules ctx e

/-- More steps are enough too, since the further ones only give other answers to begin with. -/
theorem Settled.mono (h : Settled rules ctx n e) (le : n ≤ m) : Settled rules ctx m e := by
  intro answer
  obtain ⟨k, rfl⟩ := Nat.exists_eq_add_of_le le
  rw [Function.iterate_add_apply]
  exact h _

/-- A node is settled one step after everything below it. -/
theorem Settled.succ (operand : ∀ c ∈ e.children, Settled rules ctx n c)
    (expanded : ∀ tree, e.expansion = .done tree → Settled rules ctx n tree) :
    Settled rules ctx (n + 1) e := by
  intro answer
  rw [Function.iterate_succ_apply', lowerWith_eq_step]
  exact step_congr (fun c mem => operand c mem answer)
    fun tree stands => expanded tree stands answer

/-- A node that stands for no tree asks only for its operands. -/
theorem Settled.of_plain (plain : e.isCompositeCall = false)
    (operand : ∀ c ∈ e.children, Settled rules ctx n c) : Settled rules ctx (n + 1) e := by
  refine .succ operand fun tree stands => ?_
  rw [Expr.isCompositeCall_of_expansion stands] at plain
  cases plain

/-- A tree over settled arguments is settled after as many more steps as there are nodes above them.
-/
theorem Settled.of_over {args : List Expr} (h : Composite.Over args n e)
    (settled : ∀ a ∈ args, Settled rules ctx m a) : Settled rules ctx (m + n) e := by
  induction h with
  | arg mem n => exact (settled _ mem).mono (Nat.le_add_right m n)
  | node plain _ ih => exact .of_plain plain ih

/-- Ten steps for each node of an expression are enough. -/
theorem settled_size (rules : List Rule) (ctx : Context) (e : Expr) :
    Settled rules ctx (10 * e.size) e := by
  induction e using Expr.lowering_induction with
  | step e operand _ =>
      have below (c : Expr) (mem : c ∈ e.children) : Settled rules ctx (10 * (e.size - 1)) c := by
        have size := Expr.size_lt_of_mem_children mem
        exact (operand c mem).mono (by omega)
      have room : 10 * (e.size - 1) + 10 = 10 * e.size := by
        rw [Expr.size_eq e]
        omega
      rw [← room]
      refine .succ (fun c mem => (below c mem).mono (Nat.le_add_right _ 9)) fun tree stands => ?_
      -- The tree is larger than the call, but the arguments under it are settled.
      cases e with
      | call f args => exact .of_over (Composite.over_of_expand stands) below
      | _ => cases stands

/-- Lowering ends. The composite depth of an expression is the greatest number of composite calls on
a path from its root to a leaf. The tree of a composite call has a smaller one, because all
composite calls in it lie in the arguments, although it has more nodes and may hold an argument
three times. So lowering a node asks only for answers to expressions of a smaller depth, or of the
same depth and with fewer nodes. Unfolded ten times for each node of an expression, it depends on no
answer any more. Both hold for every list of rules. -/
theorem recursion_ends :
    (∀ e : Expr, IsGreatest {n | ∃ path, e.IsPath path ∧ path.countP Expr.isCompositeCall = n}
      e.compositeDepth) ∧
    (∀ f args tree, Composite.expand f args = .done tree →
      tree.compositeDepth < (Expr.call f args).compositeDepth ∧
      (∀ c, tree.HasPart c → c.isCompositeCall = true → ∃ a ∈ args, a.HasPart c) ∧
      (Expr.call f args).size < tree.size) ∧
    (∀ day date, (Composite.nextDay day date).size = 3 * date.size + 20) ∧
    (∀ rules ctx e answer answer', (∀ c : Expr, c.Below e → answer c = answer' c) →
      step rules ctx answer e = step rules ctx answer' e) ∧
    ∀ rules ctx e n, 10 * e.size ≤ n →
      ∀ answer, (step rules ctx)^[n] answer e = lowerWith rules ctx e := by
  refine ⟨Expr.isGreatest_compositeDepth, ?_, Composite.size_nextDay, ?_, ?_⟩
  · intro f args tree expands
    refine ⟨Expr.compositeDepth_lt_of_expansion expands, ?_, Composite.size_lt_of_expand expands⟩
    intro c part composite
    exact (Composite.over_of_expand expands).exists_of_hasPart part composite
  · intro rules ctx e answer answer' agree
    exact step_congr (fun c mem => agree c (Expr.below_of_mem_children mem))
      fun tree stands => agree tree (Expr.below_of_expansion stands)
  · intro rules ctx e n enough
    exact (settled_size rules ctx e).mono enough

/-- The first Monday after a day. -/
def firstMonday : Expr :=
  .call .nextDay [.column ⟨1, "d", none, .date⟩, .text "MO"]

/-- The call for the first Friday after that has two composite calls on a path and five nodes, and
the tree it stands for has one on a path and more nodes. Answers to expressions with three are not
asked for, and lowering is settled by fifty steps. -/
theorem recursion_ends_of_friday_after_monday :
    (∃ tree, Composite.expand .nextDay [firstMonday, .text "FR"] = .done tree ∧
      tree.compositeDepth < 2 ∧ 5 < tree.size) ∧
    step standard {} (fun c => if c.compositeDepth < 3 then c.lower {} else .untranslatable)
        (.call .nextDay [firstMonday, .text "FR"]) =
      step standard {} (Expr.lower {}) (.call .nextDay [firstMonday, .text "FR"]) ∧
    ∀ answer, (step standard {})^[50] answer (.call .nextDay [firstMonday, .text "FR"]) =
      Expr.lower {} (.call .nextDay [firstMonday, .text "FR"]) := by
  obtain ⟨-, expands, -, asks, ends⟩ := recursion_ends
  have friday : Composite.weekday (.text "FR") = .done .friday := by decide +kernel
  have stands : Composite.expand .nextDay [firstMonday, .text "FR"] =
      .done (Composite.nextDay .friday firstMonday) := by
    rw [Composite.expand, friday]
    rfl
  have composite : ScalarFunction.nextDay.isComposite = true := rfl
  have depth : (Expr.call .nextDay [firstMonday, .text "FR"]).compositeDepth = 2 := by
    simp [firstMonday, composite, Expr.compositeDepth_eq (.column _), Expr.children,
      Expr.isCompositeCall]
  have size : (Expr.call .nextDay [firstMonday, .text "FR"]).size = 5 := by
    simp [firstMonday, Expr.size_call_two, Expr.size_eq (.column _), Expr.children, Expr.text,
      Expr.ofValue, Expr.size_literal]
  obtain ⟨less, -, more⟩ := expands _ _ _ stands
  rw [depth] at less
  rw [size] at more
  refine ⟨⟨_, stands, less, more⟩, asks _ _ _ _ _ ?_, ends _ _ _ _ (by rw [size])⟩
  intro c below
  have small : c.compositeDepth < 3 := by
    rw [Expr.Below, Prod.lex_def, depth] at below
    omega
  rw [if_pos small]

end Rule

end SqlLowering
