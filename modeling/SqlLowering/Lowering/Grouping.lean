import SqlLowering.Lowering.Operation

/-!
# Aggregates and windows

The target has no filter on an aggregate. Instead every argument becomes null where the filter
does not hold, and aggregates ignore nulls. A distinct aggregate with a filter is not attempted.

In a window the target sorts nulls low, so only the null ordering that agrees with it can be
written.
-/

namespace SqlLowering

open Fragment Dialect

namespace AggregateCall

/-- The aggregate exists in the version of the target. -/
def isAvailable (ctx : Context) : AggregateFunction → Bool
  | .bitAnd | .bitOr | .bitXor => ctx.supports .bitwiseAggregates
  | .approxCountDistinct => ctx.supports .approxCountDistinct
  | _ => true

/-- The arguments fit the function: none only for a count of rows, several only for a count of
distinct combinations, and no filter beside `distinct`. -/
def isWellFormed {ε : Type} (call : AggregateCall ε) : Bool :=
  !(call.distinct && call.filter.isSome) &&
    match call.args with
    | [] => call.func == .count && !call.distinct
    | [_] => true
    | _ => call.func == .count && call.distinct

/-- An argument that is null where the filter does not hold. -/
def restrict (filter : Option Fragment) (arg : Fragment) : Fragment :=
  match filter with
  | some condition => Rule.ifElse condition arg (.raw "NULL")
  | none => arg

/-- The arguments of a count of rows: all of them, or a one for each row that passes the filter. -/
def rowArguments (filter : Option Fragment) : List Fragment :=
  match filter with
  | some _ => [restrict filter (.int 1)]
  | none => [.raw "*"]

/-- The call with its arguments. -/
def write (func : AggregateFunction) (distinct : Bool) (args : List Fragment) : Fragment :=
  if distinct then
    concat (.raw func.sqlName) (parenthesize (concat (.raw "DISTINCT") (join args ", ") " ")) ""
  else
    Fragment.func func.sqlName args

/-- Lower an aggregate: the filter first, then the arguments. -/
def lower (ctx : Context) (call : AggregateCall Expr)
    (visit : (c : Expr) → c ∈ call.children → Lowering Fragment) : Lowering Fragment := do
  Lowering.require (isAvailable ctx call.func)
  Lowering.require call.isWellFormed
  let filter ← Lowering.optional call.filter fun c h =>
    visit c (mem_children_of_filter h)
  if call.args.isEmpty then
    pure (write call.func call.distinct (rowArguments filter))
  else
    let args ← Lowering.each call.args fun c h => visit c (mem_children_of_mem_args h)
    pure (write call.func call.distinct (args.map (restrict filter)))

end AggregateCall

/-- An end of a window frame, with the sign of its offset as a word. -/
def FrameBoundary.fragment : FrameBoundary → Fragment
  | .unboundedPreceding => .raw "UNBOUNDED PRECEDING"
  | .unboundedFollowing => .raw "UNBOUNDED FOLLOWING"
  | .currentRow => .raw "CURRENT ROW"
  | .offset n =>
    concat (.nat n.toInt.natAbs) (.raw (if n < 0 then "PRECEDING" else "FOLLOWING")) " "

/-- A window frame between its two ends. -/
def WindowFrame.fragment (frame : WindowFrame) : Fragment :=
  let kind := match frame.kind with
    | .rows => "ROWS"
    | .range => "RANGE"
  words [.raw kind, .raw "BETWEEN", frame.start.fragment, .raw "AND", frame.stop.fragment]

namespace WindowFunction

/-- A value from another row, some rows away; the distance must not be negative. -/
def shift (name : String) (offset : Int64) (input : Lowering Fragment)
    (default : Lowering (Option Fragment)) : Lowering Fragment := do
  Lowering.require (0 ≤ offset)
  let input ← input
  let default ← default
  pure (func name ([input, .int offset.toInt] ++ default.toList))

/-- Lower the function of a window call. A distinct aggregate cannot be used over a window. -/
def lower (ctx : Context) : (f : WindowFunction Expr) →
    ((c : Expr) → c ∈ f.children → Lowering Fragment) → Lowering Fragment
  | .aggregate call, visit => do
    Lowering.require (!call.distinct)
    call.lower ctx visit
  | .rowNumber, _ => pure (func "ROW_NUMBER" [])
  | .rank, _ => pure (func "RANK" [])
  | .denseRank, _ => pure (func "DENSE_RANK" [])
  | .percentRank, _ => pure (func "PERCENT_RANK" [])
  | .cumeDist, _ => pure (func "CUME_DIST" [])
  | .ntile buckets, visit => do
    pure (func "NTILE" [← visit buckets (mem_children_ntile buckets)])
  | .lag input offset default, visit =>
    shift "LAG" offset (visit input (mem_children_lag input offset default))
      (Lowering.optional default fun c h => visit c (mem_children_of_lag_default h))
  | .lead input offset default, visit =>
    shift "LEAD" offset (visit input (mem_children_lead input offset default))
      (Lowering.optional default fun c h => visit c (mem_children_of_lead_default h))
  | .firstValue input, visit => do
    pure (func "FIRST_VALUE" [← visit input (mem_children_firstValue input)])
  | .lastValue input, visit => do
    pure (func "LAST_VALUE" [← visit input (mem_children_lastValue input)])
  | .nthValue input n, visit => do
    Lowering.require (1 ≤ n)
    pure (func "NTH_VALUE" [← visit input (mem_children_nthValue input n), .int n.toInt])

end WindowFunction

namespace WindowCall

/-- The word for a direction. -/
def directionWord : SortDirection → String
  | .ascending => "ASC"
  | .descending => "DESC"

/-- The null ordering that the target always uses for a direction. -/
def targetNulls : SortDirection → NullOrdering
  | .ascending => .nullsFirst
  | .descending => .nullsLast

/-- A list of keys after the words that announce it; nothing for an empty list. -/
def keyClause (announce : String) (keys : List Fragment) : List Fragment :=
  if keys.isEmpty then [] else [concat (.raw announce) (join keys ", ") " "]

/-- Lower what stands in the parentheses of a window: partition keys, sort keys and the frame. -/
def overClause (call : WindowCall Expr)
    (visit : (c : Expr) → c ∈ call.children → Lowering Fragment) :
    Lowering Fragment := do
  let partition ← Lowering.each call.partitionBy fun c h =>
    visit c (mem_children_of_mem_partitionBy h)
  let order ← Lowering.each call.orderBy fun key h => do
    Lowering.require (key.nulls == targetNulls key.direction)
    let expr ← visit key.expr (mem_children_of_mem_orderBy h)
    pure (concat expr (.raw (directionWord key.direction)) " ")
  let frame := call.frame.toList.map WindowFrame.fragment
  pure (parenthesize (words
    (keyClause "PARTITION BY" partition ++ keyClause "ORDER BY" order ++ frame)))

end WindowCall

namespace Rule

/-- Aggregates. -/
def aggregate : Rule
  | ctx, .aggregate call, d => call.lower ctx d.child
  | _, _, _ => .untranslatable

/-- Functions over a window. -/
def window : Rule
  | ctx, .window call, d => do
    let function ← call.func.lower ctx fun c h =>
      d.child c (WindowCall.mem_children_of_mem_func h)
    let clause ← call.overClause d.child
    pure (words [function, .raw "OVER", clause])
  | _, _, _ => .untranslatable

end Rule

end SqlLowering
