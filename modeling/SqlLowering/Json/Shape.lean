import SqlLowering.Json.Basic

/-!
# Records and variants in JSON

A record is an object with its fields as members, or an array of all its fields in order. Members
of other names are ignored, a repeated field is refused, and an absent one reads as null. A
variant is its name alone, or an object with the name as its only member and the content as its
value.
-/

namespace SqlLowering.Json

variable {α : Type}

/-- The value of a field among the members of an object. -/
def field? (members : List (String × Json)) (name : String) : Option Json :=
  match members.filter (·.1 == name) with
  | [] => some .null
  | [(_, value)] => some value
  | _ => none

/-- The fields of a record, in the order of their names. -/
def record? (names : List String) : Json → Option (List Json)
  | .array items => if items.length = names.length then some items else none
  | .object members => names.mapM (field? members)
  | _ => none

/-- The name and the content of a variant. -/
def variant? : Json → Option (String × Option Json)
  | .string name => some (name, none)
  | .object [(name, content)] => some (name, some content)
  | _ => none

/-- The name of a variant without content. -/
def unitName? (j : Json) : Option String :=
  match variant? j with
  | some (name, none) => some name
  | some (name, some .null) => some name
  | _ => none

/-- A variant with content. -/
def tagged (name : String) (content : Json) : Json :=
  .object [(name, content)]

/-- A truth value. -/
def toBool? : Json → Option Bool
  | .bool b => some b
  | _ => none

/-- A string. -/
def toString? : Json → Option String
  | .string s => some s
  | _ => none

/-- A string of one character. -/
def toChar? (j : Json) : Option Char := do
  match (← j.toString?).toList with
  | [c] => some c
  | _ => none

/-- An integer between two bounds. -/
def toIntBetween? (low high : Int) : Json → Option Int
  | .number n => n.toInt?.filter fun i => low ≤ i && i ≤ high
  | _ => none

/-- A signed integer of so many bits. -/
def toSigned? (bits : Nat) (j : Json) : Option Int :=
  j.toIntBetween? (-(Nat.pow 2 (bits - 1) : Int)) ((Nat.pow 2 (bits - 1) : Int) - 1)

/-- An unsigned integer of so many bits. -/
def toUnsigned? (bits : Nat) (j : Json) : Option Nat :=
  (j.toIntBetween? 0 ((Nat.pow 2 bits : Int) - 1)).map Int.toNat

/-- An array of values of one kind. -/
def toList? (item : Json → Option α) : Json → Option (List α)
  | .array items => items.mapM item
  | _ => none

/-- A value or null. -/
def toOption? (content : Json → Option α) : Json → Option (Option α)
  | .null => some none
  | j => (content j).map some

end SqlLowering.Json
