import SqlLowering.Number.Shortest

/-!
# Notations for binary numbers

Three texts are written for a binary number, all from its shortest digits: a plain one without an
exponent, a scientific one that the target reads as an approximate number, and the pieces of a JSON
number.
-/

namespace SqlLowering.Number

namespace Scientific

/-- The digits before and after the point when no exponent is written. -/
def plainParts (x : Scientific) : List Char × List Char :=
  if x.exponent < 0 then
    (['0'], List.replicate (-x.exponent - 1).toNat '0' ++ x.digits)
  else
    let whole := x.exponent.toNat + 1
    (x.digits.take whole ++ List.replicate (whole - x.digits.length) '0', x.digits.drop whole)

/-- The text without an exponent; a whole number has no point. -/
def plain (x : Scientific) : String :=
  match x.plainParts with
  | (whole, []) => String.ofList whole
  | (whole, fraction) => String.ofList (whole ++ '.' :: fraction)

/-- One digit, the rest after a point if there is any, and always an exponent. -/
def withExponent (x : Scientific) : String :=
  let fraction := match x.digits.drop 1 with
    | [] => []
    | rest => '.' :: rest
  String.ofList (x.digits.take 1 ++ fraction) ++ "e" ++ Text.intText x.exponent

end Scientific

namespace Reading

/-- A minus sign in front of a negative number, also of zero. -/
def signed (negative : Bool) (text : String) : String :=
  if negative then "-" ++ text else text

/-- The text shown to people: never an exponent, and names for what is not finite. -/
def plain : Reading → String
  | .nan => "NaN"
  | .infinite negative => signed negative "inf"
  | .finite negative x => signed negative x.shortest.plain

/-- The text of an approximate number of the target; there is none for what is not finite. -/
def scientific? : Reading → Option String
  | .finite negative x => some (signed negative x.shortest.withExponent)
  | _ => none

end Reading

end SqlLowering.Number
