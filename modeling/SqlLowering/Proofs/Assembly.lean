import SqlLowering.Proofs.Equations

/-!
# A node is written from its operands

The result of lowering a node is a function of the results of its operands. `Expr.assemble` is that
function: it takes the fragments of the operands as given and writes the node with them, or refuses.
A node that is no composite call has a result exactly when every operand has one and the node can be
written from them; a composite call has the result of the tree it stands for. So a single operand
without a result leaves the whole expression without one.

Main statements: `Expr.lower_eq_done_iff` and `Expr.lower_eq_done_of_composite`. What every lowered
fragment has in common is proved from them by looking at `assemble` alone.
-/

namespace SqlLowering

open Dialect Fragment

namespace Literal

/-- The members of a set are written one by one, and each of them must have a text. -/
theorem encodeAll_eq_some {values : List Value} {declared : DataType} {fs : List Fragment} :
    encodeAll values declared = some fs ↔ values.map (encode · declared) = fs.map some := by
  induction values generalizing fs with
  | nil => cases fs <;> simp [encodeAll]
  | cons value values ih =>
      rw [encodeAll] at ih ⊢
      rw [List.mapM_cons, Option.bind_eq_bind, Option.bind_eq_some_iff]
      constructor
      · rintro ⟨first, written, others⟩
        obtain ⟨rest, writtenRest, same⟩ := Option.bind_eq_some_iff.mp others
        cases same
        rw [List.map_cons, List.map_cons, written, ih.mp writtenRest]
      · intro same
        cases fs with
        | nil => cases same
        | cons first rest =>
            obtain ⟨written, writtenRest⟩ := List.cons.inj same
            exact ⟨first, written, Option.bind_eq_some_iff.mpr ⟨rest, ih.mpr writtenRest, rfl⟩⟩

end Literal

namespace Composite

/-- The composite calls that stand for a tree, each with its tree. -/
inductive Expands : ScalarFunction → List Expr → Expr → Prop where
  | dayStart (instant zone : Expr) :
      Expands .dayStartInTimezone [instant, zone] (dayStart instant zone)
  | date (input zone : Expr) :
      Expands .stringToDateInTimezone [input, zone] (localDate (.cast input .timestamp) zone)
  | parsedDate (input format zone : Expr) :
      Expands .stringToDateInTimezone [input, format, zone]
        (localDate (.call .strToDate [input, format]) zone)
  | dayDiff (later earlier : Expr) :
      Expands .dayDiff [later, earlier] (.call .dateDiff [.cast later .date, .cast earlier .date])
  | weekDiff {start : Expr} {day : Calendar.Weekday} (named : weekday start = .done day)
      (later earlier : Expr) :
      Expands .weekDiff [later, earlier, start] (weekDiff day later earlier)
  | nextDay {name : Expr} {day : Calendar.Weekday} (named : weekday name = .done day)
      (date : Expr) : Expands .nextDay [date, name] (nextDay day date)
  | weekdayName (date : Expr) :
      Expands .dayOfWeekName [date] (.call .dateFormat [date, .text "EEEE"])
  | formattedTime (seconds format : Expr) :
      Expands .fromUnixTimeFormatted [seconds, format]
        (.call .dateFormat [.call .fromUnixTime [seconds], format])

/-- No other call has an expansion, whatever its arguments are. -/
theorem expands_of_expand {f : ScalarFunction} {args : List Expr} {tree : Expr}
    (h : expand f args = .done tree) : Expands f args tree := by
  unfold expand at h
  split at h
  case h_5 | h_6 =>
    obtain ⟨day, named, h⟩ := Outcome.bind_eq_done.mp h
    cases h
    constructor
    exact named
  case h_9 => cases h
  all_goals
    cases h
    constructor

end Composite

namespace Conversion

/-- The forms in which an operand of another type is written. -/
inductive Form (operand : Fragment) : Fragment → Prop where
  | spelled : Form operand (Rule.ifElse operand (bindText "true") (bindText "false"))
  | cut : Form operand (castAs (truncated operand) (.raw "SIGNED"))
  | cast {type : String} (mem : type ∈ ["CHAR", "SIGNED", "DOUBLE", "DATE", "DATETIME(6)"]) :
      Form operand (castAs operand (.raw type))
  | decimal (precision scale : UInt8) :
      Form operand (castAs operand (Literal.decimalType precision scale))
  | compared : Form operand (parenthesize (words [operand, .raw "!=", .int 0]))

/-- A conversion has one of these forms, whatever the two types are. -/
theorem form_of_convert? {operand f : Fragment} {source target : DataType}
    (h : convert? operand source target = some f) : Form operand f := by
  cases target with
  | string =>
      rw [convert?] at h
      split at h
      · cases h
        exact .spelled
      · split at h
        · cases h
        · cases h
          exact .cast (by simp)
  | byte | short | integer | long =>
      rw [convert?] at h
      split at h
      · cases h
        exact .cut
      · split at h
        · cases h
          exact .cast (by simp)
        · cases h
  | float | double | date | timestamp =>
      rw [convert?] at h
      split at h
      · cases h
        exact .cast (by simp)
      · cases h
  | decimal precision scale =>
      rw [convert?] at h
      split at h
      · cases h
        exact .decimal precision scale
      · cases h
  | boolean =>
      rw [convert?] at h
      split at h
      · cases h
        exact .compared
      · cases h
  | null | binary | interval => cases h

end Conversion

namespace AggregateCall

/-- Write an aggregate, given the fragments of its operands. -/
def assemble (ctx : Context) (visit : Expr → Fragment) (call : AggregateCall Expr) :
    Option Fragment :=
  if isAvailable ctx call.func && call.isWellFormed then
    let filter := call.filter.map visit
    if call.args.isEmpty then
      some (write call.func call.distinct (rowArguments filter))
    else
      some (write call.func call.distinct ((call.args.map visit).map (restrict filter)))
  else
    none

end AggregateCall

namespace WindowFunction

/-- Write a value from another row, given the fragments of its operands. -/
def assembleShift (visit : Expr → Fragment) (name : String) (input : Expr) (offset : Int64)
    (default : Option Expr) : Option Fragment :=
  if 0 ≤ offset then
    some (func name ([visit input, .int offset.toInt] ++ (default.map visit).toList))
  else
    none

/-- Write a window function, given the fragments of its operands. -/
def assemble (ctx : Context) (visit : Expr → Fragment) : WindowFunction Expr → Option Fragment
  | .aggregate call => if !call.distinct then call.assemble ctx visit else none
  | .rowNumber => some (func "ROW_NUMBER" [])
  | .rank => some (func "RANK" [])
  | .denseRank => some (func "DENSE_RANK" [])
  | .percentRank => some (func "PERCENT_RANK" [])
  | .cumeDist => some (func "CUME_DIST" [])
  | .ntile buckets => some (func "NTILE" [visit buckets])
  | .lag input offset default => assembleShift visit "LAG" input offset default
  | .lead input offset default => assembleShift visit "LEAD" input offset default
  | .firstValue input => some (func "FIRST_VALUE" [visit input])
  | .lastValue input => some (func "LAST_VALUE" [visit input])
  | .nthValue input n =>
    if 1 ≤ n then some (func "NTH_VALUE" [visit input, .int n.toInt]) else none

end WindowFunction

namespace WindowCall

/-- The target can write the null ordering of a sort key. -/
def isWritable (key : SortKey Expr) : Bool :=
  key.nulls == targetNulls key.direction

/-- Write what stands in the parentheses of a window, given the fragments of its operands. -/
def assembleOver (visit : Expr → Fragment) (call : WindowCall Expr) : Fragment :=
  parenthesize (words
    (keyClause "PARTITION BY" (call.partitionBy.map visit) ++
      keyClause "ORDER BY" (call.orderBy.map fun key =>
        concat (visit key.expr) (.raw (directionWord key.direction)) " ") ++
      call.frame.toList.map WindowFrame.fragment))

/-- Write a window call, given the fragments of its operands. -/
def assemble (ctx : Context) (visit : Expr → Fragment) (call : WindowCall Expr) :
    Option Fragment := do
  let function ← call.func.assemble ctx visit
  if call.orderBy.all isWritable then
    pure (words [function, .raw "OVER", call.assembleOver visit])
  else
    none

end WindowCall

namespace Expr

/-- Write a call that is not composite, given the fragments of its arguments. -/
def assembleCall (ctx : Context) (visit : Expr → Fragment) (f : ScalarFunction)
    (args : List Expr) : Option Fragment :=
  match Rule.Kind.ofFunction f, args with
  | .variadicFunction, args => do
    let name ← Rule.variadicName? f
    if f.shape.accepts args.length then pure (func name (args.map visit)) else none
  | .leafFunction, [] => Rule.leafCall? ctx f
  | .scalarFunction, args => do
    let name ← Rule.scalarName? f
    if f.shape.accepts args.length && !Rule.roundsApproximate f args then
      pure (func name (args.map visit))
    else
      none
  | .dateArithmetic, [date, amount] => do
    let (name, unit) ← Rule.dateArithmeticName? f
    pure (func name [visit date, words [.raw "INTERVAL", visit amount, .raw unit]])
  | .formatFunction, [input, format] => do
    let (name, mode) ← Rule.formatName? f
    if mode == .symbol || ctx.supports .specifierFormats then
      let letters ← format.stringLiteral?
      pure (func name [visit input, bindText (mode.convert letters)])
    else
      none
  | .textPredicate, [text, part] => do
    let test ← Rule.textTest? f
    pure (parenthesize (words (test (visit text) (visit part))))
  | _, _ => none

/-- Write a node that is no composite call, given the fragments of its operands. -/
def assemble (ctx : Context) (visit : Expr → Fragment) : Expr → Option Fragment
  | .literal value type => Literal.encode value type
  | .column ref => ctx.resolver ref
  | .alias child _ => some (visit child)
  | .unary op child => some (Rule.applyUnary op (visit child))
  | .binary op left right =>
    some (parenthesize (words [visit left, .raw op.token, visit right]))
  | .call f args => assembleCall ctx visit f args
  | .conditional predicate consequent otherwise =>
    some (Rule.ifElse (visit predicate) (visit consequent) (visit otherwise))
  | .case branches otherwise =>
    if !branches.isEmpty then
      some (Rule.caseWhen (branches.map fun b => Rule.branchWords (visit b.1) (visit b.2))
        (otherwise.map visit))
    else
      none
  | .pattern kind child regex =>
    some (parenthesize (words (Rule.matchWords kind (visit child) (visit regex))))
  | .inList child items negated =>
    if !items.isEmpty then some (Rule.memberTest (visit child) (items.map visit) negated) else none
  | .inSet child values type negated => do
    let members ← Literal.encodeAll values type
    if !members.isEmpty then pure (Rule.memberTest (visit child) members negated) else none
  | .cast child target =>
    if child.dataType = target then
      some (visit child)
    else
      Conversion.convert? (visit child) child.dataType target
  | .aggregate agg => agg.assemble ctx visit
  | .window win => win.assemble ctx visit

/-- Lowering the expression has a result. -/
def IsLowered (ctx : Context) (e : Expr) : Prop :=
  ∃ f, (e.lower ctx).outcome = .done f

/-- The fragment of an expression; an empty text stands for one without a result. -/
def fragment (ctx : Context) (e : Expr) : Fragment :=
  match (e.lower ctx).outcome with
  | .done f => f
  | _ => .raw ""

/-- The result of lowering is the fragment of the expression. -/
theorem fragment_eq {ctx : Context} {e : Expr} {f : Fragment}
    (h : (e.lower ctx).outcome = .done f) : e.fragment ctx = f := by
  rw [fragment, h]

/-- An expression that can be lowered is lowered to its fragment. -/
theorem IsLowered.outcome_eq {ctx : Context} {e : Expr} (h : e.IsLowered ctx) :
    (e.lower ctx).outcome = .done (e.fragment ctx) := by
  obtain ⟨f, h⟩ := h
  rw [fragment_eq h, h]

end Expr

/-- The computation has a result exactly when all the given operands have one and `value` is it. -/
def Lowering.Needs {α : Type} (ctx : Context) (operands : List Expr) (x : Lowering α)
    (value : Option α) : Prop :=
  ∀ a, x.outcome = .done a ↔ (∀ c ∈ operands, c.IsLowered ctx) ∧ value = some a

namespace Lowering.Needs

variable {α β : Type} {ctx : Context} {ops ops' : List Expr} {x : Lowering α} {v : Option α}

/-- An operand has a result exactly when it has one: the fragment that it is lowered to. -/
theorem operand (c : Expr) : Needs ctx [c] (c.lower ctx) (some (c.fragment ctx)) := by
  intro f
  constructor
  · intro h
    refine ⟨fun c' mem => ?_, by rw [Expr.fragment_eq h]⟩
    rw [List.mem_singleton.mp mem]
    exact ⟨f, h⟩
  · rintro ⟨lowered, value⟩
    rw [(lowered c List.mem_cons_self).outcome_eq, Option.some.inj value]

/-- A value that depends on no operand needs none. -/
theorem ofOption (v : Option α) : Needs ctx [] (Lowering.ofOption v) v := by
  intro a
  simp [Outcome.ofOption_eq_done]

theorem pure (a : α) : Needs ctx [] (Pure.pure a : Lowering α) (some a) :=
  ofOption (some a)

/-- What has no text has none whatever operands are said to be needed. -/
theorem untranslatable : Needs ctx ops (Lowering.untranslatable : Lowering α) none := by
  intro a
  simp

/-- Only the set of operands matters. -/
theorem congr (h : Needs ctx ops x v) (same : ∀ c, c ∈ ops ↔ c ∈ ops') : Needs ctx ops' x v := by
  intro a
  rw [h a]
  simp only [same]

/-- The value may be put together in another way, as long as it is the same. -/
theorem value_eq {w : Option α} (h : Needs ctx ops x v) (same : v = w) : Needs ctx ops x w :=
  same ▸ h

/-- A continued computation needs the operands of both parts. -/
theorem bind {f : α → Lowering β} {w : α → Option β} (first : Needs ctx ops x v)
    (next : ∀ a, Needs ctx ops' (f a) (w a)) : Needs ctx (ops ++ ops') (x >>= f) (v >>= w) := by
  intro b
  rw [Lowering.outcome_bind, Outcome.bind_eq_done]
  constructor
  · rintro ⟨a, ha, hb⟩
    obtain ⟨lowered, rfl⟩ := (first a).mp ha
    obtain ⟨lowered', hw⟩ := (next a b).mp hb
    exact ⟨List.forall_mem_append.mpr ⟨lowered, lowered'⟩, hw⟩
  · rintro ⟨lowered, value⟩
    obtain ⟨before, after⟩ := List.forall_mem_append.mp lowered
    obtain ⟨a, rfl, hw⟩ := Option.bind_eq_some_iff.mp value
    exact ⟨a, (first a).mpr ⟨before, rfl⟩, (next a b).mpr ⟨after, hw⟩⟩

/-- A computation that ends by writing down its result. -/
theorem map (g : α → β) (first : Needs ctx ops x v) :
    Needs ctx ops (x >>= fun a => Pure.pure (g a)) (v.map g) := by
  have both := bind first fun a => pure (g a)
  rw [List.append_nil] at both
  cases v <;> exact both

/-- A computation that goes on after a requirement. -/
theorem require {condition : Bool} {p : Prop} [Decidable p] {f : Unit → Lowering β}
    {w : Option β} (same : condition = true ↔ p) (next : Needs ctx ops (f ()) w) :
    Needs ctx ops (Lowering.require condition >>= f) (if p then w else none) := by
  intro b
  rw [Lowering.outcome_require_bind_eq_done, next b, same]
  by_cases holds : p <;> simp [holds]

/-- Operands that have a result whenever the computation has one may be counted in. -/
theorem also (h : Needs ctx ops x v) (free : ∀ a, v = some a → ∀ c ∈ ops', c.IsLowered ctx) :
    Needs ctx (ops ++ ops') x v := by
  intro a
  rw [h a, List.forall_mem_append]
  constructor
  · rintro ⟨lowered, value⟩
    exact ⟨⟨lowered, free a value⟩, value⟩
  · rintro ⟨⟨lowered, _⟩, value⟩
    exact ⟨lowered, value⟩

/-- A list needs the operands of all its members. -/
theorem each {f : α → Lowering β} {uses : α → List Expr} {fits : α → Bool} {value : α → β}
    (xs : List α)
    (member : ∀ a ∈ xs, Needs ctx (uses a) (f a) (if fits a then some (value a) else none)) :
    Needs ctx (xs.flatMap uses) (Lowering.each xs fun a _ => f a)
      (if xs.all fits then some (xs.map value) else none) := by
  induction xs with
  | nil => exact pure []
  | cons a as ih =>
      have rest := ih fun a mem => member a (List.mem_cons_of_mem _ mem)
      have both := bind (member a List.mem_cons_self) fun b => map (b :: ·) rest
      rw [Lowering.each, List.flatMap_cons]
      cases first : fits a <;> simpa [first] using both

/-- Operands in a list. -/
theorem operands (cs : List Expr) :
    Needs ctx cs (Lowering.each cs fun c _ => c.lower ctx) (some (cs.map (Expr.fragment ctx))) := by
  have all : Needs ctx (cs.flatMap fun c => [c]) (Lowering.each cs fun c _ => c.lower ctx)
      (if cs.all fun _ => true then some (cs.map (Expr.fragment ctx)) else none) :=
    each cs fun c _ => operand c
  rw [if_pos (List.all_eq_true.mpr fun _ _ => rfl)] at all
  exact all.congr (by simp)

/-- An optional operand. -/
theorem optional (x : Option Expr) :
    Needs ctx x.toList (Lowering.optional x fun c _ => c.lower ctx)
      (some (x.map (Expr.fragment ctx))) := by
  cases x with
  | none => exact pure none
  | some c => exact map some (operand c)

end Lowering.Needs

section Nodes

open Lowering

variable (ctx : Context)

/-- An aggregate needs its arguments and its condition, and of the rest of the call only that it can
be written. -/
theorem AggregateCall.needs (agg : AggregateCall Expr) :
    Needs ctx agg.children (agg.lower ctx fun c _ => c.lower ctx)
      (agg.assemble ctx (Expr.fragment ctx)) := by
  simp only [AggregateCall.lower, AggregateCall.assemble, Bool.and_eq_true, ite_and]
  apply Needs.require Iff.rfl
  apply Needs.require Iff.rfl
  by_cases empty : agg.args.isEmpty
  · simp only [empty, if_true]
    apply (Needs.map _ (.optional agg.filter)).congr
    simp [AggregateCall.children, List.isEmpty_iff.mp empty]
  · simp only [empty]
    exact .bind (.optional agg.filter) fun filter => .map _ (.operands agg.args)

/-- A value from another row. -/
theorem WindowFunction.shift_needs (name : String) (input : Expr) (offset : Int64)
    (default : Option Expr) :
    Needs ctx (input :: default.toList)
      (WindowFunction.shift name offset (input.lower ctx)
        (Lowering.optional default fun c _ => c.lower ctx))
      (assembleShift (Expr.fragment ctx) name input offset default) := by
  apply Needs.require decide_eq_true_iff
  exact .bind (.operand input) fun value => .map _ (.optional default)

/-- A window function needs its own operands; a rank has none. -/
theorem WindowFunction.needs (f : WindowFunction Expr) :
    Needs ctx f.children (f.lower ctx fun c _ => c.lower ctx)
      (f.assemble ctx (Expr.fragment ctx)) := by
  cases f with
  | aggregate agg =>
      apply Needs.require Iff.rfl
      exact agg.needs ctx
  | rowNumber | rank | denseRank | percentRank | cumeDist => exact .pure _
  | ntile buckets => exact .map _ (.operand buckets)
  | lag input offset default => exact shift_needs ctx "LAG" input offset default
  | lead input offset default => exact shift_needs ctx "LEAD" input offset default
  | firstValue input | lastValue input => exact .map _ (.operand input)
  | nthValue input n =>
      apply Needs.require decide_eq_true_iff
      exact .map _ (.operand input)

/-- The window of a call needs its partition keys and its sort keys. -/
theorem WindowCall.overClause_needs (win : WindowCall Expr) :
    Needs ctx (win.partitionBy ++ win.orderBy.map (·.expr))
      (win.overClause fun c _ => c.lower ctx)
      (if win.orderBy.all isWritable then some (win.assembleOver (Expr.fragment ctx))
        else none) := by
  have keys : Needs ctx (win.orderBy.flatMap fun key => [key.expr])
      (Lowering.each win.orderBy fun key _ => do
        Lowering.require (key.nulls == targetNulls key.direction)
        let expr ← key.expr.lower ctx
        pure (concat expr (.raw (directionWord key.direction)) " "))
      (if win.orderBy.all isWritable then
        some (win.orderBy.map fun key =>
          concat (key.expr.fragment ctx) (.raw (directionWord key.direction)) " ")
      else none) := by
    apply Needs.each
    intro key _
    apply Needs.require Iff.rfl
    exact .map _ (.operand key.expr)
  have both := Needs.bind (.operands win.partitionBy) fun partition => Needs.map (fun order =>
    parenthesize (words (keyClause "PARTITION BY" partition ++ keyClause "ORDER BY" order ++
      win.frame.toList.map WindowFrame.fragment))) keys
  refine (both.congr (by simp [eq_comm])).value_eq ?_
  by_cases writable : win.orderBy.all isWritable <;> simp [writable, assembleOver]

/-- A window needs the operands of its function and those of its clause, which are lowered one after
the other. -/
theorem WindowCall.needs (win : WindowCall Expr) :
    Needs ctx win.children ((Expr.window win).lower ctx)
      (win.assemble ctx (Expr.fragment ctx)) := by
  have both := Needs.bind (win.func.needs ctx) fun function =>
    Needs.map (fun clause => words [function, .raw "OVER", clause]) (win.overClause_needs ctx)
  rw [Expr.lower_window]
  refine (both.congr (by simp [WindowCall.children])).value_eq ?_
  rw [assemble]
  by_cases writable : win.orderBy.all isWritable <;> simp [writable]

/-- A string literal always has a result, which is a placeholder. -/
theorem Expr.isLowered_of_stringLiteral? {e : Expr} {s : String} (h : e.stringLiteral? = some s) :
    e.IsLowered ctx := by
  cases e with
  | literal value type =>
      cases value with
      | string t => exact ⟨.bind (.string t) type, by rw [lower_literal]; rfl⟩
      | _ => exact nomatch h
  | _ => exact nomatch h

/-- A date pattern must be a string literal. -/
theorem Expr.exists_stringLiteral?_of_assembleCall {visit : Expr → Fragment} {f : ScalarFunction}
    (kind : Rule.Kind.ofFunction f = .formatFunction) {input format : Expr} {g : Fragment}
    (h : assembleCall ctx visit f [input, format] = some g) :
    ∃ letters, format.stringLiteral? = some letters := by
  simp only [assembleCall, kind] at h
  obtain ⟨⟨name, mode⟩, -, h⟩ := Option.bind_eq_some_iff.mp h
  split at h
  · obtain ⟨letters, literal, -⟩ := Option.bind_eq_some_iff.mp h
    exact ⟨letters, literal⟩
  · cases h

/-- A call with a date pattern needs its input only, because the pattern is a string literal. -/
theorem Expr.formatCall_needs {f : ScalarFunction}
    (kind : Rule.Kind.ofFunction f = .formatFunction) (input format : Expr) :
    Needs ctx [input, format] ((Expr.call f [input, format]).lower ctx)
      (assembleCall ctx (Expr.fragment ctx) f [input, format]) := by
  have written : Needs ctx [input] ((Expr.call f [input, format]).lower ctx)
      (assembleCall ctx (Expr.fragment ctx) f [input, format]) := by
    rw [Expr.lower_formatFunction ctx kind]
    simp only [assembleCall, kind]
    refine .bind (.ofOption _) fun (name, mode) => ?_
    apply Needs.require Iff.rfl
    refine .bind (.ofOption _) fun letters => ?_
    have converted : Needs ctx [] (Lowering.convert mode letters) (some (mode.convert letters)) :=
      fun a => by simp
    exact .bind (.operand input) fun formatted => .map _ converted
  refine written.also ?_
  intro a value c mem
  rw [List.mem_singleton.mp mem]
  obtain ⟨letters, literal⟩ := exists_stringLiteral?_of_assembleCall ctx kind value
  exact isLowered_of_stringLiteral? ctx literal

/-- A call of a kind that fixes the number of its arguments cannot be written with another number
of them. -/
theorem Expr.assembleCall_of_misfit (visit : Expr → Fragment) {f : ScalarFunction}
    {args : List Expr} (h : Rule.Misfit f args.length) : assembleCall ctx visit f args = none := by
  rcases h with ⟨h, ne⟩ | ⟨h | h | h, ne⟩ <;> simp only [assembleCall, h] <;>
    rcases args with _ | ⟨first, _ | ⟨second, _ | ⟨third, rest⟩⟩⟩ <;>
      first | rfl | exact absurd rfl ne

/-- The forms in which a call that is not composite is written. -/
inductive Expr.CallForm (visit : Expr → Fragment) (f : ScalarFunction) :
    List Expr → Fragment → Prop where
  | named {name : String} (args : List Expr)
      (known : Rule.variadicName? f = some name ∨ Rule.scalarName? f = some name) :
      CallForm visit f args (func name (args.map visit))
  | leaf {g : Fragment} (known : Rule.leafCall? ctx f = some g) : CallForm visit f [] g
  | dateArithmetic {name unit : String} (date amount : Expr)
      (known : Rule.dateArithmeticName? f = some (name, unit)) :
      CallForm visit f [date, amount]
        (func name [visit date, words [.raw "INTERVAL", visit amount, .raw unit]])
  | format {name letters : String} {mode : Format.Mode} (input : Expr) {pattern : Expr}
      (known : Rule.formatName? f = some (name, mode))
      (literal : pattern.stringLiteral? = some letters) :
      CallForm visit f [input, pattern] (func name [visit input, bindText (mode.convert letters)])
  | textPredicate {test : Fragment → Fragment → List Fragment} (text part : Expr)
      (known : Rule.textTest? f = some test) :
      CallForm visit f [text, part] (parenthesize (words (test (visit text) (visit part))))

/-- A call that is put together has one of these forms: each rule for calls writes one, and a call
that does not fit its rule is not written. -/
theorem Expr.callForm_of_assembleCall {visit : Expr → Fragment} {f : ScalarFunction}
    {args : List Expr} {g : Fragment} (plain : Rule.Kind.ofFunction f ≠ .compositeCall)
    (h : assembleCall ctx visit f args = some g) : CallForm ctx visit f args g := by
  cases Rule.callCase f args with
  | composite kind => exact absurd kind plain
  | variadic kind =>
      simp only [assembleCall, kind] at h
      obtain ⟨name, known, h⟩ := Option.bind_eq_some_iff.mp h
      split at h
      · cases h
        exact .named args (.inl known)
      · cases h
  | leaf kind =>
      simp only [assembleCall, kind] at h
      exact .leaf h
  | scalar kind =>
      simp only [assembleCall, kind] at h
      obtain ⟨name, known, h⟩ := Option.bind_eq_some_iff.mp h
      split at h
      · cases h
        exact .named args (.inr known)
      · cases h
  | dateArithmetic kind date amount =>
      simp only [assembleCall, kind] at h
      obtain ⟨⟨name, unit⟩, known, h⟩ := Option.bind_eq_some_iff.mp h
      cases h
      exact .dateArithmetic date amount known
  | format kind input pattern =>
      simp only [assembleCall, kind] at h
      obtain ⟨⟨name, mode⟩, known, h⟩ := Option.bind_eq_some_iff.mp h
      split at h
      · obtain ⟨letters, literal, h⟩ := Option.bind_eq_some_iff.mp h
        cases h
        exact .format input known literal
      · cases h
  | textPredicate kind text part =>
      simp only [assembleCall, kind] at h
      obtain ⟨test, known, h⟩ := Option.bind_eq_some_iff.mp h
      cases h
      exact .textPredicate text part known
  | misfit misfit =>
      rw [assembleCall_of_misfit ctx visit misfit] at h
      cases h

/-- A call needs its arguments under each of the rules for calls, except that an expansion decides
for itself what it needs. -/
theorem Expr.call_needs (f : ScalarFunction) (args : List Expr)
    (plain : Rule.Kind.ofFunction f ≠ .compositeCall) :
    Needs ctx args ((Expr.call f args).lower ctx)
      (assembleCall ctx (Expr.fragment ctx) f args) := by
  cases Rule.callCase f args with
  | composite kind => exact absurd kind plain
  | variadic kind =>
      rw [lower_variadicFunction ctx kind]
      simp only [assembleCall, kind]
      refine .bind (.ofOption _) fun name => ?_
      apply Needs.require Iff.rfl
      exact .map _ (.operands args)
  | leaf kind =>
      rw [lower_leafFunction ctx kind]
      simp only [assembleCall, kind]
      exact .ofOption _
  | scalar kind =>
      rw [lower_scalarFunction ctx kind]
      simp only [assembleCall, kind, Bool.and_eq_true, ite_and]
      refine .bind (.ofOption _) fun name => ?_
      apply Needs.require Iff.rfl
      apply Needs.require Iff.rfl
      exact .map _ (.operands args)
  | dateArithmetic kind date amount =>
      rw [lower_dateArithmetic ctx kind]
      simp only [assembleCall, kind]
      refine .bind (.ofOption _) fun (name, unit) => ?_
      exact .bind (.operand date) fun start => .map _ (.operand amount)
  | format kind input format => exact formatCall_needs ctx kind input format
  | textPredicate kind text part =>
      rw [lower_textPredicate ctx kind]
      simp only [assembleCall, kind]
      refine .bind (.ofOption _) fun test => ?_
      exact .bind (.operand text) fun whole => .map _ (.operand part)
  | misfit h =>
      rw [lower_call_of_misfit ctx h, assembleCall_of_misfit ctx _ h]
      exact .untranslatable

/-- A node that is no composite call needs its operands. -/
theorem Expr.needs (e : Expr) (plain : e.kind ≠ .compositeCall) :
    Needs ctx e.children (e.lower ctx) (e.assemble ctx (Expr.fragment ctx)) := by
  match e with
  | .literal value type =>
      rw [lower_literal]
      exact .ofOption _
  | .column ref =>
      rw [lower_column]
      exact .ofOption _
  | .alias child name =>
      rw [lower_alias]
      exact .operand child
  | .unary op child =>
      rw [lower_unary]
      exact .map _ (.operand child)
  | .binary op left right =>
      rw [lower_binary]
      exact .bind (.operand left) fun before => .map _ (.operand right)
  | .call f args => exact call_needs ctx f args plain
  | .conditional predicate consequent otherwise =>
      rw [lower_conditional]
      exact .bind (.operand predicate) fun condition =>
        .bind (.operand consequent) fun yes => .map _ (.operand otherwise)
  | .case branches otherwise =>
      rw [lower_case]
      have written : Needs ctx (branches.flatMap fun b => [b.1, b.2])
          (Lowering.each branches fun branch _ => do
            let condition ← branch.1.lower ctx
            let result ← branch.2.lower ctx
            pure (Rule.branchWords condition result))
          (if branches.all fun _ => true then
            some (branches.map fun b =>
              Rule.branchWords (b.1.fragment ctx) (b.2.fragment ctx))
          else none) := by
        apply Needs.each
        intro branch _
        exact .bind (.operand branch.1) fun condition => .map _ (.operand branch.2)
      rw [if_pos (List.all_eq_true.mpr fun _ _ => rfl)] at written
      apply Needs.require Iff.rfl
      exact .bind written fun _ => .map _ (.optional otherwise)
  | .pattern kind child regex =>
      rw [lower_pattern]
      exact .bind (.operand child) fun text => .map _ (.operand regex)
  | .inList child items negated =>
      rw [lower_inList]
      have test (members : List Fragment) : Needs ctx [child]
          (do
            Lowering.require (!members.isEmpty)
            let value ← child.lower ctx
            pure (Rule.memberTest value members negated))
          (if !members.isEmpty then some (Rule.memberTest (child.fragment ctx) members negated)
            else none) :=
        .require Iff.rfl (.map _ (.operand child))
      exact (Needs.bind (.operands items) test).value_eq (by simp [assemble])
  | .inSet child values type negated =>
      rw [lower_inSet]
      refine .bind (.ofOption _) fun members => ?_
      apply Needs.require Iff.rfl
      exact .map _ (.operand child)
  | .cast child target =>
      rw [lower_cast]
      by_cases same : child.dataType = target
      · simp only [assemble, if_pos same]
        exact .map id (.operand child)
      · simp only [assemble, if_neg same]
        exact .bind (.operand child) fun operand => .ofOption _
  | .aggregate agg =>
      rw [lower_aggregate]
      exact agg.needs ctx
  | .window win => exact win.needs ctx

end Nodes

namespace Expr

/-- A node that is no composite call has a result exactly when all its operands have one and it can
be written from them. -/
theorem lower_eq_done_iff {ctx : Context} {e : Expr} (plain : e.kind ≠ .compositeCall)
    {f : Fragment} :
    (e.lower ctx).outcome = .done f ↔
      (∀ c ∈ e.children, c.IsLowered ctx) ∧ e.assemble ctx (fragment ctx) = some f :=
  e.needs ctx plain f

/-- A composite call has the result of the tree it stands for. -/
theorem lower_eq_done_of_composite {ctx : Context} {e : Expr} (composite : e.kind = .compositeCall)
    {f : Fragment} :
    (e.lower ctx).outcome = .done f ↔
      ∃ tree, e.expansion = .done tree ∧ (tree.lower ctx).outcome = .done f := by
  cases e with
  | call g args =>
      rw [lower_compositeCall ctx composite, Lowering.outcome_bind, Lowering.outcome_ofOutcome,
        Outcome.bind_eq_done]
      rfl
  | _ => exact nomatch composite

/-- What holds of every column and passes from the operands of a node to the node holds of every
lowered fragment. -/
theorem fragment_induction {ctx : Context} {P : Fragment → Prop}
    (node : ∀ e : Expr, e.kind ≠ .compositeCall → ∀ visit : Expr → Fragment,
      (∀ c ∈ e.children, P (visit c)) → ∀ f, e.assemble ctx visit = some f → P f)
    {e : Expr} {f : Fragment} (h : (e.lower ctx).outcome = .done f) : P f := by
  induction e using lowering_induction generalizing f with
  | step e operand expansion =>
      by_cases composite : e.kind = .compositeCall
      · obtain ⟨tree, stands, lowered⟩ := (lower_eq_done_of_composite composite).mp h
        exact expansion tree stands lowered
      · obtain ⟨lowered, written⟩ := (lower_eq_done_iff composite).mp h
        apply node e composite (fragment ctx) _ f written
        intro c mem
        exact operand c mem (lowered c mem).outcome_eq

/-- The result of a root is that of the expression, perhaps with a name. -/
theorem exists_lower_of_lowerRoot {ctx : Context} {e : Expr} {f : Fragment}
    (h : (e.lowerRoot ctx).outcome = .done f) :
    ∃ g, (e.lower ctx).outcome = .done g ∧ (f = g ∨ ∃ name, f = g.aliased name) := by
  cases e with
  | «alias» child name =>
      rw [lowerRoot, Lowering.outcome_bind] at h
      obtain ⟨g, lowered, same⟩ := Outcome.bind_eq_done.mp h
      cases same
      exact ⟨g, by rw [lower_alias, lowered], .inr ⟨name, rfl⟩⟩
  | _ => exact ⟨f, h, .inl rfl⟩

end Expr

end SqlLowering
