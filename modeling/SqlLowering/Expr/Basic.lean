import SqlLowering.Function
import SqlLowering.Operator
import SqlLowering.Value

/-!
# Expressions

The tree of a host expression. Aggregate and window calls are written over an arbitrary type of
operands, so that `Expr` is one inductive type whose nodes hold such calls.
-/

namespace SqlLowering

/-- A column of the host: its number in the plan, its name, and the relation it belongs to. -/
structure ColumnRef where
  id : UInt64
  name : String
  qualifier : Option String
  dataType : DataType
deriving DecidableEq

/-- The dotted name of a column. -/
def ColumnRef.displayName (c : ColumnRef) : String :=
  match c.qualifier with
  | some q => q ++ "." ++ c.name
  | none => c.name

/-- How a text is matched with a pattern. -/
inductive MatchKind where
  /-- wildcards, with an escape character -/
  | like (escape : Char)
  /-- a regular expression, anywhere in the text -/
  | regex
  /-- a regular expression, from the start of the text -/
  | regexFromStart
deriving DecidableEq

/-- The direction of a sort key. -/
inductive SortDirection where
  | ascending
  | descending
deriving DecidableEq

/-- Where nulls stand among the values of a sort key. -/
inductive NullOrdering where
  | nullsFirst
  | nullsLast
deriving DecidableEq

/-- The unit in which the ends of a window frame are counted. -/
inductive FrameKind where
  | rows
  | range
deriving DecidableEq

/-- An end of a window frame. A negative offset lies before the current row. -/
inductive FrameBoundary where
  | unboundedPreceding
  | unboundedFollowing
  | currentRow
  | offset (n : Int64)
deriving DecidableEq

/-- The rows around the current one that a window function sees. -/
structure WindowFrame where
  kind : FrameKind
  start : FrameBoundary
  stop : FrameBoundary
deriving DecidableEq

/-- A call of an aggregate function. Without arguments it counts rows. -/
structure AggregateCall (ε : Type) where
  func : AggregateFunction
  args : List ε
  distinct : Bool
  filter : Option ε

/-- A key of a window's ordering. -/
structure SortKey (ε : Type) where
  expr : ε
  direction : SortDirection
  nulls : NullOrdering

/-- A function over a window. -/
inductive WindowFunction (ε : Type) where
  | aggregate (call : AggregateCall ε)
  | rowNumber
  | rank
  | denseRank
  | percentRank
  | cumeDist
  | ntile (buckets : ε)
  | lag (input : ε) (offset : Int64) (default : Option ε)
  | lead (input : ε) (offset : Int64) (default : Option ε)
  | firstValue (input : ε)
  | lastValue (input : ε)
  | nthValue (input : ε) (n : Int64)

/-- A function with the window it is applied over. -/
structure WindowCall (ε : Type) where
  func : WindowFunction ε
  partitionBy : List ε
  orderBy : List (SortKey ε)
  frame : Option WindowFrame

/-- An expression of the host. -/
inductive Expr where
  | literal (value : Value) (dataType : DataType)
  | column (ref : ColumnRef)
  | alias (child : Expr) (name : String)
  | unary (op : UnaryOp) (child : Expr)
  | binary (op : BinaryOp) (left right : Expr)
  | call (func : ScalarFunction) (args : List Expr)
  | conditional (predicate consequent otherwise : Expr)
  | case (branches : List (Expr × Expr)) (otherwise : Option Expr)
  | pattern (kind : MatchKind) (child regex : Expr)
  | inList (child : Expr) (items : List Expr) (negated : Bool)
  | inSet (child : Expr) (values : List Value) (dataType : DataType) (negated : Bool)
  | cast (child : Expr) (target : DataType)
  | aggregate (call : AggregateCall Expr)
  | window (call : WindowCall Expr)

namespace Expr

/-- A literal of the type its value has on its own. -/
def ofValue (value : Value) : Expr :=
  .literal value value.naturalType

/-- A whole number. -/
def long (n : Int64) : Expr :=
  ofValue (.long n)

/-- A text. -/
def text (s : String) : Expr :=
  ofValue (.string s)

/-- The content of a literal that holds a string, whatever its declared type. -/
def stringLiteral? : Expr → Option String
  | .literal value _ => value.asString?
  | _ => none

/-- The node is a literal. -/
def isLiteral : Expr → Bool
  | .literal .. => true
  | _ => false

end Expr

end SqlLowering
