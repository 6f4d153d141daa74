import SqlLowering.Json.Basic
import SqlLowering.Json.Token

/-!
# Reading JSON

The tokens of a text are taken one by one by a machine that keeps the arrays and objects that are
still open. An object with an unreadable name is itself unreadable.
-/

namespace SqlLowering.Json

/-- An array or object that is still open, with what it holds so far in reverse order. -/
inductive Frame where
  | array (items : List Json)
  | object (members : List (Option String × Json))
  /-- an object whose latest member has a name but no value yet -/
  | member (members : List (Option String × Json)) (name : Option String)

/-- What may come next. -/
inductive Reader where
  /-- a value -/
  | value (stack : List Frame)
  /-- a first item, or the end of the array -/
  | firstItem (stack : List Frame)
  /-- a first name, or the end of the object -/
  | firstName (stack : List Frame)
  /-- a name -/
  | memberName (stack : List Frame)
  /-- the colon after a name -/
  | colon (stack : List Frame)
  /-- a comma, or the end of the innermost array or object -/
  | next (stack : List Frame)
  /-- nothing -/
  | finished (value : Json)

namespace Reader

/-- A value is complete: it goes into the innermost array or object, or is the whole text. -/
def complete (j : Json) : List Frame → Option Reader
  | [] => some (.finished j)
  | .array items :: stack => some (.next (.array (j :: items) :: stack))
  | .member members name :: stack => some (.next (.object ((name, j) :: members) :: stack))
  | .object _ :: _ => none

/-- The innermost array is complete. -/
def closeArray : List Frame → Option Reader
  | .array items :: stack => complete (.array items.reverse) stack
  | _ => none

/-- The object with the given members, if all their names can be read. -/
def objectOf (members : List (Option String × Json)) : Json :=
  match members.mapM fun (name, j) => name.map (·, j) with
  | some members => .object members
  | none => .unreadable

/-- The innermost object is complete. -/
def closeObject : List Frame → Option Reader
  | .object members :: stack => complete (objectOf members.reverse) stack
  | _ => none

/-- A value begins. -/
def start (stack : List Frame) : Token → Option Reader
  | .null => complete .null stack
  | .bool b => complete (.bool b) stack
  | .number n => complete (.number n) stack
  | .string s => complete (.string s) stack
  | .unreadable => complete .unreadable stack
  | .openBracket => some (.firstItem (.array [] :: stack))
  | .openBrace => some (.firstName (.object [] :: stack))
  | _ => none

/-- A member begins with its name. -/
def beginMember : List Frame → Token → Option Reader
  | .object members :: stack, .string name => some (.colon (.member members (some name) :: stack))
  | .object members :: stack, .unreadable => some (.colon (.member members none :: stack))
  | _, _ => none

/-- Take one token. -/
def step : Reader → Token → Option Reader
  | .value stack, token => start stack token
  | .firstItem stack, .closeBracket => closeArray stack
  | .firstItem stack, token => start stack token
  | .firstName stack, .closeBrace => closeObject stack
  | .firstName stack, token => beginMember stack token
  | .memberName stack, token => beginMember stack token
  | .colon stack, .colon => some (.value stack)
  | .next stack, .comma =>
    match stack with
    | .array _ :: _ => some (.value stack)
    | .object _ :: _ => some (.memberName stack)
    | _ => none
  | .next stack, .closeBracket => closeArray stack
  | .next stack, .closeBrace => closeObject stack
  | _, _ => none

end Reader

/-- The value that a list of tokens denotes. -/
def ofTokens? (tokens : List Token) : Option Json :=
  match tokens.foldlM Reader.step (.value []) with
  | some (.finished j) => some j
  | _ => none

/-- Read a text that is one value. -/
def read? (text : String) : Option Json :=
  (Token.scan text).bind ofTokens?

end SqlLowering.Json
