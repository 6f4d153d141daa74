import SqlLowering.Codec.Value
import SqlLowering.Expr.Basic
import SqlLowering.Json.Reader

/-!
# Expressions in JSON

Writing goes down the tree: the JSON of a node is made from the JSON of its operands, so a call is
first turned into the same call over JSON operands. Reading is given the reader of operands, which
for a whole tree is reading itself one level deeper; no tree has more levels than its JSON is
deep.
-/

namespace SqlLowering

open Json

variable {ε : Type}

namespace ColumnRef

/-- The JSON form of a column. -/
def toJson (c : ColumnRef) : Json :=
  .object [("id", .nat c.id.toNat), ("name", .string c.name),
    ("qualifier", .ofOption (c.qualifier.map .string)), ("data_type", c.dataType.toJson)]

/-- Read a column. -/
def ofJson? (j : Json) : Option ColumnRef := do
  match ← record? ["id", "name", "qualifier", "data_type"] j with
  | [id, name, qualifier, type] =>
    pure ⟨(← id.toUnsigned? 64).toUInt64, ← name.toString?, ← qualifier.toOption? toString?,
      ← DataType.ofJson? type⟩
  | _ => none

end ColumnRef

namespace MatchKind

/-- The JSON form of a kind of match. -/
def toJson : MatchKind → Json
  | .like escape => tagged "Like" (.object [("escape", .string (String.singleton escape))])
  | .regex => .string "RLike"
  | .regexFromStart => .string "RegexFromStart"

/-- Read a kind of match. -/
def ofJson? (j : Json) : Option MatchKind := do
  match ← variant? j with
  | ("Like", some content) =>
    match ← record? ["escape"] content with
    | [escape] => pure (.like (← escape.toChar?))
    | _ => none
  | _ =>
    match ← unitName? j with
    | "RLike" => some .regex
    | "RegexFromStart" => some .regexFromStart
    | _ => none

end MatchKind

namespace SortDirection

/-- The JSON form of a direction. -/
def toJson : SortDirection → Json
  | .ascending => .string "Asc"
  | .descending => .string "Desc"

/-- Read a direction. -/
def ofJson? (j : Json) : Option SortDirection := do
  match ← unitName? j with
  | "Asc" => some .ascending
  | "Desc" => some .descending
  | _ => none

end SortDirection

namespace NullOrdering

/-- The JSON form of a null ordering. -/
def toJson : NullOrdering → Json
  | .nullsFirst => .string "NullsFirst"
  | .nullsLast => .string "NullsLast"

/-- Read a null ordering. -/
def ofJson? (j : Json) : Option NullOrdering := do
  match ← unitName? j with
  | "NullsFirst" => some .nullsFirst
  | "NullsLast" => some .nullsLast
  | _ => none

end NullOrdering

namespace FrameKind

/-- The JSON form of a kind of frame. -/
def toJson : FrameKind → Json
  | .rows => .string "Rows"
  | .range => .string "Range"

/-- Read a kind of frame. -/
def ofJson? (j : Json) : Option FrameKind := do
  match ← unitName? j with
  | "Rows" => some .rows
  | "Range" => some .range
  | _ => none

end FrameKind

namespace FrameBoundary

/-- The JSON form of an end of a frame. -/
def toJson : FrameBoundary → Json
  | .unboundedPreceding => .string "UnboundedPreceding"
  | .unboundedFollowing => .string "UnboundedFollowing"
  | .currentRow => .string "CurrentRow"
  | .offset n => tagged "Offset" (.int n.toInt)

/-- Read an end of a frame. -/
def ofJson? (j : Json) : Option FrameBoundary := do
  match ← variant? j with
  | ("Offset", some content) => pure (.offset (.ofInt (← content.toSigned? 64)))
  | _ =>
    match ← unitName? j with
    | "UnboundedPreceding" => some .unboundedPreceding
    | "UnboundedFollowing" => some .unboundedFollowing
    | "CurrentRow" => some .currentRow
    | _ => none

end FrameBoundary

namespace WindowFrame

/-- The JSON form of a frame. -/
def toJson (frame : WindowFrame) : Json :=
  .object [("kind", frame.kind.toJson), ("start", frame.start.toJson), ("end", frame.stop.toJson)]

/-- Read a frame. -/
def ofJson? (j : Json) : Option WindowFrame := do
  match ← record? ["kind", "start", "end"] j with
  | [kind, start, stop] =>
    pure ⟨← FrameKind.ofJson? kind, ← FrameBoundary.ofJson? start, ← FrameBoundary.ofJson? stop⟩
  | _ => none

end WindowFrame

namespace AggregateCall

/-- The JSON form of a call over JSON operands. -/
def toJson (call : AggregateCall Json) : Json :=
  .object [("func", .string call.func.name), ("args", .array call.args),
    ("distinct", .bool call.distinct), ("filter", .ofOption call.filter)]

/-- Read a call with the given reader of operands. -/
def ofJson? (operand : Json → Option ε) (j : Json) : Option (AggregateCall ε) := do
  match ← record? ["func", "args", "distinct", "filter"] j with
  | [func, args, distinct, filter] =>
    pure ⟨← AggregateFunction.ofName? (← unitName? func), ← args.toList? operand,
      ← distinct.toBool?, ← filter.toOption? operand⟩
  | _ => none

end AggregateCall

namespace SortKey

/-- The JSON form of a key over a JSON operand. -/
def toJson (key : SortKey Json) : Json :=
  .object [("expr", key.expr), ("direction", key.direction.toJson), ("nulls", key.nulls.toJson)]

/-- Read a key with the given reader of operands. -/
def ofJson? (operand : Json → Option ε) (j : Json) : Option (SortKey ε) := do
  match ← record? ["expr", "direction", "nulls"] j with
  | [expr, direction, nulls] =>
    pure ⟨← operand expr, ← SortDirection.ofJson? direction, ← NullOrdering.ofJson? nulls⟩
  | _ => none

end SortKey

namespace WindowFunction

/-- The content of a shift to another row. -/
def shiftToJson (input : Json) (offset : Int64) (default : Option Json) : Json :=
  .object [("input", input), ("offset", .int offset.toInt), ("default", .ofOption default)]

/-- Read the content of a shift to another row. -/
def shiftOfJson? (operand : Json → Option ε) (j : Json) : Option (ε × Int64 × Option ε) := do
  match ← record? ["input", "offset", "default"] j with
  | [input, offset, default] =>
    pure (← operand input, .ofInt (← offset.toSigned? 64), ← default.toOption? operand)
  | _ => none

/-- The JSON form of a function over JSON operands. -/
def toJson : WindowFunction Json → Json
  | .aggregate call => tagged "Aggregate" call.toJson
  | .rowNumber => .string "RowNumber"
  | .rank => .string "Rank"
  | .denseRank => .string "DenseRank"
  | .percentRank => .string "PercentRank"
  | .cumeDist => .string "CumeDist"
  | .ntile buckets => tagged "Ntile" buckets
  | .lag input offset default => tagged "Lag" (shiftToJson input offset default)
  | .lead input offset default => tagged "Lead" (shiftToJson input offset default)
  | .firstValue input => tagged "FirstValue" input
  | .lastValue input => tagged "LastValue" input
  | .nthValue input n => tagged "NthValue" (.array [input, .int n.toInt])

/-- Read the content of a function of the given name. -/
def ofContent? (operand : Json → Option ε) (name : String) (content : Json) :
    Option (WindowFunction ε) :=
  match name with
  | "Aggregate" => (AggregateCall.ofJson? operand content).map .aggregate
  | "Ntile" => (operand content).map .ntile
  | "Lag" =>
    (shiftOfJson? operand content).map fun (input, offset, default) => .lag input offset default
  | "Lead" =>
    (shiftOfJson? operand content).map fun (input, offset, default) => .lead input offset default
  | "FirstValue" => (operand content).map .firstValue
  | "LastValue" => (operand content).map .lastValue
  | "NthValue" =>
    match content with
    | .array [input, n] => do pure (.nthValue (← operand input) (.ofInt (← n.toSigned? 64)))
    | _ => none
  | _ => none

/-- Read a function with the given reader of operands. -/
def ofJson? (operand : Json → Option ε) (j : Json) : Option (WindowFunction ε) :=
  match unitName? j with
  | some "RowNumber" => some .rowNumber
  | some "Rank" => some .rank
  | some "DenseRank" => some .denseRank
  | some "PercentRank" => some .percentRank
  | some "CumeDist" => some .cumeDist
  | _ =>
    match variant? j with
    | some (name, some content) => ofContent? operand name content
    | _ => none

end WindowFunction

namespace WindowCall

/-- The JSON form of a call over JSON operands. -/
def toJson (call : WindowCall Json) : Json :=
  .object [("func", call.func.toJson), ("partition_by", .array call.partitionBy),
    ("order_by", .array (call.orderBy.map SortKey.toJson)),
    ("frame", .ofOption (call.frame.map WindowFrame.toJson))]

/-- Read a call with the given reader of operands. -/
def ofJson? (operand : Json → Option ε) (j : Json) : Option (WindowCall ε) := do
  match ← record? ["func", "partition_by", "order_by", "frame"] j with
  | [func, partitionBy, orderBy, frame] =>
    pure ⟨← WindowFunction.ofJson? operand func, ← partitionBy.toList? operand,
      ← orderBy.toList? (SortKey.ofJson? operand), ← frame.toOption? WindowFrame.ofJson?⟩
  | _ => none

end WindowCall

namespace Expr

mutual

/-- The JSON form of an expression. -/
def toJson : Expr → Json
  | .literal value type =>
    tagged "Literal" (.object [("value", value.toJson), ("data_type", type.toJson)])
  | .column ref => tagged "Column" ref.toJson
  | .alias child name =>
    tagged "Alias" (.object [("child", child.toJson), ("name", .string name)])
  | .unary op child =>
    tagged "Unary" (.object [("op", .string op.name), ("child", child.toJson)])
  | .binary op left right =>
    tagged "Binary" (.object [("op", .string op.name), ("left", left.toJson),
      ("right", right.toJson)])
  | .call func args =>
    tagged "Call" (.object [("func", .string func.name), ("args", .array (listToJson args))])
  | .conditional predicate consequent otherwise =>
    tagged "If" (.object [("predicate", predicate.toJson), ("then", consequent.toJson),
      ("otherwise", otherwise.toJson)])
  | .case branches otherwise =>
    tagged "Case" (.object [("branches", .array (branchesToJson branches)),
      ("otherwise", .ofOption (optionToJson otherwise))])
  | .pattern kind child regex =>
    tagged "Match" (.object [("kind", kind.toJson), ("child", child.toJson),
      ("pattern", regex.toJson)])
  | .inList child items negated =>
    tagged "InList" (.object [("child", child.toJson), ("list", .array (listToJson items)),
      ("negated", .bool negated)])
  | .inSet child values type negated =>
    tagged "InSet" (.object [("child", child.toJson),
      ("values", .array (values.map Value.toJson)), ("data_type", type.toJson),
      ("negated", .bool negated)])
  | .cast child target =>
    tagged "Cast" (.object [("child", child.toJson), ("to", target.toJson)])
  | .aggregate ⟨func, args, distinct, filter⟩ =>
    tagged "Aggregate"
      (AggregateCall.toJson ⟨func, listToJson args, distinct, optionToJson filter⟩)
  | .window ⟨func, partitionBy, orderBy, frame⟩ =>
    tagged "Window" (WindowCall.toJson
      ⟨functionToJson func, listToJson partitionBy, keysToJson orderBy, frame⟩)

/-- The JSON forms of several expressions. -/
def listToJson : List Expr → List Json
  | [] => []
  | e :: es => e.toJson :: listToJson es

/-- The JSON form of an optional expression. -/
def optionToJson : Option Expr → Option Json
  | none => none
  | some e => some e.toJson

/-- The JSON forms of the branches of a case distinction. -/
def branchesToJson : List (Expr × Expr) → List Json
  | [] => []
  | (condition, result) :: branches =>
    .array [condition.toJson, result.toJson] :: branchesToJson branches

/-- Sort keys with their expressions in JSON form. -/
def keysToJson : List (SortKey Expr) → List (SortKey Json)
  | [] => []
  | ⟨expr, direction, nulls⟩ :: keys => ⟨expr.toJson, direction, nulls⟩ :: keysToJson keys

/-- A window function with its operands in JSON form. -/
def functionToJson : WindowFunction Expr → WindowFunction Json
  | .aggregate ⟨func, args, distinct, filter⟩ =>
    .aggregate ⟨func, listToJson args, distinct, optionToJson filter⟩
  | .rowNumber => .rowNumber
  | .rank => .rank
  | .denseRank => .denseRank
  | .percentRank => .percentRank
  | .cumeDist => .cumeDist
  | .ntile buckets => .ntile buckets.toJson
  | .lag input offset default => .lag input.toJson offset (optionToJson default)
  | .lead input offset default => .lead input.toJson offset (optionToJson default)
  | .firstValue input => .firstValue input.toJson
  | .lastValue input => .lastValue input.toJson
  | .nthValue input n => .nthValue input.toJson n

end

/-- Read a branch of a case distinction. -/
def branchOfJson? (operand : Json → Option Expr) : Json → Option (Expr × Expr)
  | .array [condition, result] => do pure (← operand condition, ← operand result)
  | _ => none

/-- Read the content of a node of the given name, with the given reader of operands. -/
def ofContent? (operand : Json → Option Expr) (name : String) (content : Json) : Option Expr := do
  match name with
  | "Literal" =>
    match ← record? ["value", "data_type"] content with
    | [value, type] => pure (.literal (← Value.ofJson? value) (← DataType.ofJson? type))
    | _ => none
  | "Column" => pure (.column (← ColumnRef.ofJson? content))
  | "Alias" =>
    match ← record? ["child", "name"] content with
    | [child, name] => pure (.alias (← operand child) (← name.toString?))
    | _ => none
  | "Unary" =>
    match ← record? ["op", "child"] content with
    | [op, child] => pure (.unary (← UnaryOp.ofName? (← unitName? op)) (← operand child))
    | _ => none
  | "Binary" =>
    match ← record? ["op", "left", "right"] content with
    | [op, left, right] =>
      pure (.binary (← BinaryOp.ofName? (← unitName? op)) (← operand left) (← operand right))
    | _ => none
  | "Call" =>
    match ← record? ["func", "args"] content with
    | [func, args] =>
      pure (.call (← ScalarFunction.ofName? (← unitName? func)) (← args.toList? operand))
    | _ => none
  | "If" =>
    match ← record? ["predicate", "then", "otherwise"] content with
    | [predicate, consequent, otherwise] =>
      pure (.conditional (← operand predicate) (← operand consequent) (← operand otherwise))
    | _ => none
  | "Case" =>
    match ← record? ["branches", "otherwise"] content with
    | [branches, otherwise] =>
      pure (.case (← branches.toList? (branchOfJson? operand)) (← otherwise.toOption? operand))
    | _ => none
  | "Match" =>
    match ← record? ["kind", "child", "pattern"] content with
    | [kind, child, regex] =>
      pure (.pattern (← MatchKind.ofJson? kind) (← operand child) (← operand regex))
    | _ => none
  | "InList" =>
    match ← record? ["child", "list", "negated"] content with
    | [child, items, negated] =>
      pure (.inList (← operand child) (← items.toList? operand) (← negated.toBool?))
    | _ => none
  | "InSet" =>
    match ← record? ["child", "values", "data_type", "negated"] content with
    | [child, values, type, negated] =>
      pure (.inSet (← operand child) (← values.toList? Value.ofJson?) (← DataType.ofJson? type)
        (← negated.toBool?))
    | _ => none
  | "Cast" =>
    match ← record? ["child", "to"] content with
    | [child, target] => pure (.cast (← operand child) (← DataType.ofJson? target))
    | _ => none
  | "Aggregate" => pure (.aggregate (← AggregateCall.ofJson? operand content))
  | "Window" => pure (.window (← WindowCall.ofJson? operand content))
  | _ => none

/-- Read an expression of at most so many levels. -/
def ofJsonWithin : Nat → Json → Option Expr
  | 0, _ => none
  | levels + 1, j =>
    match variant? j with
    | some (name, some content) => ofContent? (ofJsonWithin levels) name content
    | _ => none

/-- Read an expression. -/
def ofJson? (j : Json) : Option Expr :=
  ofJsonWithin j.depth j

/-- The greatest number of arrays and objects open at once on the way to a part of an expression. -/
def nesting : Nat := 127

/-- Read an expression that is not nested too deep. Members that are ignored may have any depth. -/
def ofNested? (j : Json) : Option Expr :=
  ofJson? (j.limitDepth nesting)

/-- Read an expression from a text. -/
def ofText? (text : String) : Option Expr :=
  (Json.read? text).bind ofNested?

end Expr

end SqlLowering
