import SqlLowering.Text.Quoted
import SqlLowering.Value

/-!
# Fragments of the target's text

A fragment is a tree of pieces of SQL. Fixed words and numbers are raw text, names are quoted when
they are rendered, and everything else that comes from outside is a bound value: a placeholder in
the text and an entry in the list of parameters.
-/

namespace SqlLowering

/-- A value sent beside the text, with the type it is declared to have. -/
structure Parameter where
  value : Value
  dataType : DataType
deriving DecidableEq

/-- A tree of pieces of SQL. -/
inductive Fragment where
  /-- fixed words, operators and numbers -/
  | raw (text : String)
  /-- a column or alias name -/
  | ident (name : String)
  /-- a placeholder for a value -/
  | bound (param : Parameter)
  /-- parts in order, joined by a separator, perhaps in parentheses -/
  | composite (parts : List Fragment) (separator : String) (parens : Bool)

/-- The text with placeholders, and the values for them in order. -/
structure Rendered where
  sql : String
  params : List Parameter
deriving DecidableEq

namespace Fragment

/-- A placeholder for a value of the given type. -/
def bind (value : Value) (dataType : DataType) : Fragment :=
  .bound ⟨value, dataType⟩

/-- A placeholder for a text. -/
def bindText (s : String) : Fragment :=
  bind (.string s) .string

/-- The decimal text of an integer. -/
def int (i : Int) : Fragment :=
  .raw (Text.intText i)

/-- The decimal text of a natural number. -/
def nat (n : Nat) : Fragment :=
  .raw (Text.natText n)

/-- A decimal with all its digits. -/
def decimal (d : Number.Decimal) : Fragment :=
  .raw d.text

/-- A binary number with an exponent; there is none for a number that is not finite. -/
def float? (x : Number.Reading) : Option Fragment :=
  x.scientific?.map .raw

/-- Parts joined by a separator. -/
def join (parts : List Fragment) (separator : String) : Fragment :=
  .composite parts separator false

/-- Two parts joined by a separator. -/
def concat (a b : Fragment) (separator : String) : Fragment :=
  join [a, b] separator

/-- Parts joined by a space. -/
def words (parts : List Fragment) : Fragment :=
  join parts " "

/-- A fragment in parentheses. -/
def parenthesize (f : Fragment) : Fragment :=
  .composite [f] "" true

/-- A function call: the name, and the arguments in parentheses with commas between them. -/
def func (name : String) (args : List Fragment) : Fragment :=
  join [.raw name, .composite args ", " true] ""

/-- A fragment with the name it is given in a select list. -/
def aliased (f : Fragment) (name : String) : Fragment :=
  words [f, .raw "AS", .ident name]

mutual

/-- The text of a fragment. -/
def sql : Fragment → String
  | .raw text => text
  | .ident name => Text.quoteIdentifier name
  | .bound _ => "?"
  | .composite parts separator false => sqlOfParts separator parts
  | .composite parts separator true => "(" ++ sqlOfParts separator parts ++ ")"

/-- The texts of several fragments with a separator between them. -/
def sqlOfParts (separator : String) : List Fragment → String
  | [] => ""
  | part :: parts => part.sql ++ sqlAfter separator parts

/-- The texts of several fragments, each after a separator. -/
def sqlAfter (separator : String) : List Fragment → String
  | [] => ""
  | part :: parts => separator ++ part.sql ++ sqlAfter separator parts

end

mutual

/-- The bound values of a fragment, in the order of their placeholders. -/
def params : Fragment → List Parameter
  | .raw _ | .ident _ => []
  | .bound param => [param]
  | .composite parts _ _ => paramsOfParts parts

/-- The bound values of several fragments. -/
def paramsOfParts : List Fragment → List Parameter
  | [] => []
  | part :: parts => part.params ++ paramsOfParts parts

end

/-- The text and the parameters of a fragment. -/
def render (f : Fragment) : Rendered :=
  ⟨f.sql, f.params⟩

end Fragment

end SqlLowering
