import SqlLowering.Expr.Basic

/-!
# Building expressions step by step

A stack of expressions, and steps that combine the topmost ones. A step that needs more than the
stack holds, or a call of another kind on top, is refused.
-/

namespace SqlLowering

namespace Expr

/-- Expressions with the topmost one first. -/
abbrev Stack := List Expr

/-- A step on the stack. -/
inductive Step where
  /-- put an expression on top -/
  | push (e : Expr)
  | alias (name : String)
  | unary (op : UnaryOp)
  | cast (target : DataType)
  | binary (op : BinaryOp)
  /-- take so many arguments, the deepest one first -/
  | call (func : ScalarFunction) (count : Nat)
  | conditional
  | pattern (kind : MatchKind)
  /-- take the filter if there is one, then so many arguments -/
  | aggregate (func : AggregateFunction) (count : Nat) (distinct filtered : Bool)
  /-- put the aggregate on top over an empty window -/
  | overAggregate
  /-- take so many keys and then the window call that they partition -/
  | partitionBy (count : Nat)
  /-- take one expression for each key and then the window call that they order -/
  | orderBy (keys : List (SortDirection × NullOrdering))
  | frame (extent : WindowFrame)
  | duplicate
  | drop

/-- A function over a window without any clause. -/
def overEmpty (func : WindowFunction Expr) : Expr :=
  .window ⟨func, [], [], none⟩

/-- The topmost expressions in the order in which they were put there, and the rest. -/
def takeTop (count : Nat) (stack : Stack) : Option (List Expr × Stack) :=
  if count ≤ stack.length then some ((stack.take count).reverse, stack.drop count) else none

/-- Change the window call on top. -/
def changeWindow (change : WindowCall Expr → WindowCall Expr) : Stack → Option Stack
  | .window win :: rest => some (.window (change win) :: rest)
  | _ => none

/-- Carry out a step. -/
def Step.run : Step → Stack → Option Stack
  | .push e, stack => some (e :: stack)
  | .alias name, e :: rest => some (.alias e name :: rest)
  | .unary op, e :: rest => some (.unary op e :: rest)
  | .cast target, e :: rest => some (.cast e target :: rest)
  | .binary op, right :: left :: rest => some (.binary op left right :: rest)
  | .call func count, stack => do
    let (args, rest) ← takeTop count stack
    pure (.call func args :: rest)
  | .conditional, otherwise :: consequent :: predicate :: rest =>
    some (.conditional predicate consequent otherwise :: rest)
  | .pattern kind, regex :: child :: rest => some (.pattern kind child regex :: rest)
  | .aggregate func count distinct true, filter :: stack => do
    let (args, rest) ← takeTop count stack
    pure (.aggregate ⟨func, args, distinct, some filter⟩ :: rest)
  | .aggregate func count distinct false, stack => do
    let (args, rest) ← takeTop count stack
    pure (.aggregate ⟨func, args, distinct, none⟩ :: rest)
  | .overAggregate, .aggregate agg :: rest => some (overEmpty (.aggregate agg) :: rest)
  | .partitionBy count, stack => do
    let (keys, rest) ← takeTop count stack
    changeWindow (fun win => { win with partitionBy := keys }) rest
  | .orderBy directions, stack => do
    let (keys, rest) ← takeTop directions.length stack
    let keys := keys.zipWith (fun e (direction, nulls) => ⟨e, direction, nulls⟩) directions
    changeWindow (fun win => { win with orderBy := keys }) rest
  | .frame extent, stack => changeWindow (fun win => { win with frame := some extent }) stack
  | .duplicate, e :: rest => some (e :: e :: rest)
  | .drop, _ :: rest => some rest
  | _, _ => none

end Expr

end SqlLowering
