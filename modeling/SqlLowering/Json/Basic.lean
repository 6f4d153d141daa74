import SqlLowering.Json.Numeral

/-!
# JSON values

The members of an object keep their order and may repeat, as they do in the text; it is for the
reader of an object to refuse repetition where it matters. In the same way a value that follows the
rules of the text but has no content to take is kept as unreadable: it does no harm where nobody
looks at it, and no reader accepts it.
-/

namespace SqlLowering

/-- A JSON value. -/
inductive Json where
  | null
  | bool (value : Bool)
  | number (value : Json.Numeral)
  | string (value : String)
  | array (items : List Json)
  | object (members : List (String × Json))
  /-- a string or a name with half a surrogate pair in it, or a value that is nested too deep -/
  | unreadable

namespace Json

/-- An integer. -/
def int (i : Int) : Json :=
  .number (.ofInt i)

/-- A natural number. -/
def nat (n : Nat) : Json :=
  int n

/-- A value or null. -/
def ofOption : Option Json → Json
  | some j => j
  | none => .null

mutual

/-- The greatest number of arrays and objects that are open at once. -/
def depth : Json → Nat
  | .array items => depthOfItems items + 1
  | .object members => depthOfMembers members + 1
  | _ => 0

/-- The greatest depth among items. -/
def depthOfItems : List Json → Nat
  | [] => 0
  | item :: items => max item.depth (depthOfItems items)

/-- The greatest depth among the values of members. -/
def depthOfMembers : List (String × Json) → Nat
  | [] => 0
  | (_, value) :: members => max value.depth (depthOfMembers members)

end

mutual

/-- The value with every array and object below so many others made unreadable. -/
def limitDepth : Nat → Json → Json
  | 0, .array _ => .unreadable
  | 0, .object _ => .unreadable
  | limit + 1, .array items => .array (limitItems limit items)
  | limit + 1, .object members => .object (limitMembers limit members)
  | _, j => j

/-- Items of limited depth. -/
def limitItems (limit : Nat) : List Json → List Json
  | [] => []
  | item :: items => limitDepth limit item :: limitItems limit items

/-- Members of limited depth. -/
def limitMembers (limit : Nat) : List (String × Json) → List (String × Json)
  | [] => []
  | (name, value) :: members => (name, limitDepth limit value) :: limitMembers limit members

end

mutual

/-- The value with the members of every object sorted by name. -/
def sorted : Json → Json
  | .array items => .array (sortedItems items)
  | .object members => .object ((sortedMembers members).mergeSort fun a b => a.1 ≤ b.1)
  | j => j

/-- Items with sorted members. -/
def sortedItems : List Json → List Json
  | [] => []
  | item :: items => item.sorted :: sortedItems items

/-- Members with sorted members. -/
def sortedMembers : List (String × Json) → List (String × Json)
  | [] => []
  | (name, value) :: members => (name, value.sorted) :: sortedMembers members

end

end Json

end SqlLowering
